import StadiumRecomp.Mips.Discovery

/-!
Contract: which addresses the data gate of `tools/mips_find_functions.py` sees
inside a known body.

Owns: the bodies of the known functions, the body the binary search inspects, and
the exact addresses on which that body decides for all of them.

Does not own: what discovery does with a rejected address.
-/

set_option autoImplicit false

namespace StadiumRecomp.Mips

open StadiumRecomp.Lib

namespace Setup

variable (setup : Setup)

/-- A known function of the section with a positive size covers `[lo, hi)`. -/
def KnownBody (lo hi : Int) : Prop :=
  ∃ size, (lo, size) ∈ setup.knownFns ∧ setup.inSec lo ∧ 0 < size ∧ hi = lo + size

/-- `vram` lies strictly inside some known body and starts none. -/
def EnclosedByBody (vram : Int) : Prop :=
  (∃ lo hi, setup.KnownBody lo hi ∧ lo < vram ∧ vram < hi) ∧
    ∀ lo hi, setup.KnownBody lo hi → lo ≠ vram

/-- Among the bodies around `vram` is one that starts nearest below it. -/
def NearestEncloses (vram : Int) : Prop :=
  ∃ lo hi, setup.KnownBody lo hi ∧ lo < vram ∧ vram < hi ∧
    ∀ otherLo otherHi, setup.KnownBody otherLo otherHi → otherLo < vram → otherLo ≤ lo

/-! ## The sorted bodies -/

theorem mem_knownBodies (lo hi : Int) :
    (lo, hi) ∈ setup.knownBodies ↔ setup.KnownBody lo hi := by
  unfold knownBodies KnownBody
  rw [List.mem_insertionSort]
  simp only [List.mem_map, List.mem_filter, decide_eq_true_eq, Prod.exists, Prod.mk.injEq]
  constructor
  · rintro ⟨start, size, ⟨known, inSec, positive⟩, rfl, rfl⟩
    exact ⟨size, known, inSec, positive, rfl⟩
  · rintro ⟨size, known, inSec, positive, rfl⟩
    exact ⟨lo, size, ⟨known, inSec, positive⟩, rfl, rfl⟩

/-- Bodies come by start, and equal starts by end. -/
theorem knownBodies_sorted : setup.knownBodies.Pairwise
    (fun left right => left.1 < right.1 ∨ (left.1 = right.1 ∧ left.2 ≤ right.2)) := by
  have total : Std.Total (fun left right : Int × Int =>
      left.1 < right.1 ∨ (left.1 = right.1 ∧ left.2 ≤ right.2)) := ⟨by intros; omega⟩
  have transitive : IsTrans (Int × Int) (fun left right =>
      left.1 < right.1 ∨ (left.1 = right.1 ∧ left.2 ≤ right.2)) := ⟨by intros; omega⟩
  exact List.pairwise_insertionSort _ _

theorem bodyLos_sorted : (setup.knownBodies.map Prod.fst).Pairwise (· ≤ ·) := by
  rw [List.pairwise_map]
  apply setup.knownBodies_sorted.imp
  intro left right ordered
  omega

/-- A body starting at or below `vram` stands before the search position. -/
theorem body_before_bisect {vram : Int} {index : Nat} {body : Int × Int}
    (stands : setup.knownBodies[index]? = some body) (below : body.1 ≤ vram) :
    index < Search.bisectRight (setup.knownBodies.map Prod.fst) vram := by
  apply Search.lt_bisectRight setup.bodyLos_sorted _ below
  rw [List.getElem?_map, stands]
  rfl

theorem below_of_before_bisect {vram : Int} {index : Nat} {body : Int × Int}
    (stands : setup.knownBodies[index]? = some body)
    (before : index < Search.bisectRight (setup.knownBodies.map Prod.fst) vram) :
    body.1 ≤ vram := by
  apply Search.le_of_lt_bisectRight _ before
  rw [List.getElem?_map, stands]
  rfl

theorem bisect_le_length (vram : Int) :
    Search.bisectRight (setup.knownBodies.map Prod.fst) vram ≤ setup.knownBodies.length := by
  have short := (List.takeWhile_prefix (l := setup.knownBodies.map Prod.fst)
    (fun start => decide (start ≤ vram))).length_le
  rw [List.length_map] at short
  exact short

/-- The order of two bodies in the sorted list. -/
theorem body_ordered {earlier later : Nat} {left right : Int × Int} (before : earlier ≤ later)
    (leftStands : setup.knownBodies[earlier]? = some left)
    (rightStands : setup.knownBodies[later]? = some right) :
    left.1 < right.1 ∨ (left.1 = right.1 ∧ left.2 ≤ right.2) := by
  obtain ⟨leftBound, rfl⟩ := List.getElem?_eq_some_iff.mp leftStands
  obtain ⟨rightBound, rfl⟩ := List.getElem?_eq_some_iff.mp rightStands
  rcases Nat.lt_or_eq_of_le before with less | rfl
  · exact List.pairwise_iff_getElem.mp setup.knownBodies_sorted _ _ leftBound rightBound less
  · exact Or.inr ⟨rfl, Int.le_refl _⟩

/-! ## The inspected body -/

/-- The lookup accepts exactly when a body that starts nearest at or below `vram`
lies strictly around it. -/
theorem insideKnownBody_iff (vram : Int) : setup.insideKnownBody vram = true ↔
    ∃ lo hi, setup.KnownBody lo hi ∧ lo < vram ∧ vram < hi ∧
      ∀ otherLo otherHi, setup.KnownBody otherLo otherHi → otherLo ≤ vram →
        otherLo ≤ lo := by
  unfold insideKnownBody
  constructor
  · intro accepted
    cases position : Search.bisectRight (setup.knownBodies.map Prod.fst) vram with
    | zero => simp [position] at accepted
    | succ last =>
        rw [position] at accepted
        cases body : setup.knownBodies[last]? with
        | none => simp [body] at accepted
        | some inspected =>
            obtain ⟨lo, hi⟩ := inspected
            simp only [body, decide_eq_true_eq] at accepted
            have known := (setup.mem_knownBodies lo hi).mp (List.mem_of_getElem? body)
            refine ⟨lo, hi, known, accepted.1, accepted.2, ?_⟩
            intro otherLo otherHi otherKnown below
            -- Every other candidate stands at or before the inspected position.
            have member := (setup.mem_knownBodies otherLo otherHi).mpr otherKnown
            obtain ⟨index, stands⟩ := List.mem_iff_getElem?.mp member
            have before := setup.body_before_bisect stands below
            rw [position] at before
            have ordered := setup.body_ordered (Nat.le_of_lt_succ before) stands body
            omega
  · intro ⟨lo, hi, known, above, below, nearest⟩
    have member := (setup.mem_knownBodies lo hi).mpr known
    obtain ⟨index, stands⟩ := List.mem_iff_getElem?.mp member
    have before := setup.body_before_bisect stands (Int.le_of_lt above)
    cases position : Search.bisectRight (setup.knownBodies.map Prod.fst) vram with
    | zero => omega
    | succ last =>
        rw [position] at before
        have short := setup.bisect_le_length vram
        rw [position] at short
        obtain ⟨inspected, body⟩ : ∃ inspected, setup.knownBodies[last]? = some inspected :=
          ⟨_, List.getElem?_eq_getElem short⟩
        have inspectedBelow := setup.below_of_before_bisect body (by rw [position]; omega)
        have known := (setup.mem_knownBodies _ _).mp (List.mem_of_getElem? body)
        have notLater := nearest _ _ known inspectedBelow
        -- The inspected body starts where the nearest one does and ends no earlier.
        have ordered := setup.body_ordered (Nat.le_of_lt_succ before) stands body
        simp only [body, decide_eq_true_eq]
        omega

/-- The lookup sees an enclosing body exactly when the address starts a body, lies
in none, or lies in one of those that start nearest below it. -/
theorem insideKnownBody_sees_enclosing_iff (setup : Setup) (vram : Int) :
    (setup.insideKnownBody vram = true ↔ setup.EnclosedByBody vram) ↔
      ((∃ hi, setup.KnownBody vram hi) ∨
        (∀ lo hi, setup.KnownBody lo hi → lo < vram → hi ≤ vram) ∨
        setup.NearestEncloses vram) := by
  rw [setup.insideKnownBody_iff]
  by_cases starts : ∃ hi, setup.KnownBody vram hi
  · obtain ⟨hi, startsHere⟩ := starts
    constructor
    · intro _
      exact Or.inl ⟨hi, startsHere⟩
    · intro _
      constructor
      · intro ⟨lo, _, _, above, _, nearest⟩
        have notLater := nearest vram hi startsHere (Int.le_refl vram)
        omega
      · intro enclosed
        exact absurd rfl (enclosed.2 vram hi startsHere)
  · have notStart : ∀ lo hi, setup.KnownBody lo hi → lo ≠ vram := by
      intro lo hi known same
      subst same
      exact starts ⟨hi, known⟩
    have accepted : (∃ lo hi, setup.KnownBody lo hi ∧ lo < vram ∧ vram < hi ∧
        ∀ otherLo otherHi, setup.KnownBody otherLo otherHi → otherLo ≤ vram →
          otherLo ≤ lo) ↔ setup.NearestEncloses vram := by
      constructor
      · intro ⟨lo, hi, known, above, below, nearest⟩
        refine ⟨lo, hi, known, above, below, ?_⟩
        intro otherLo otherHi otherKnown before
        exact nearest otherLo otherHi otherKnown (Int.le_of_lt before)
      · intro ⟨lo, hi, known, above, below, nearest⟩
        refine ⟨lo, hi, known, above, below, ?_⟩
        intro otherLo otherHi otherKnown before
        have different := notStart otherLo otherHi otherKnown
        exact nearest otherLo otherHi otherKnown (by omega)
    rw [accepted]
    constructor
    · intro agrees
      right
      by_cases enclosed : setup.EnclosedByBody vram
      · exact Or.inr (agrees.mpr enclosed)
      · left
        intro lo hi known above
        by_contra below
        exact enclosed ⟨⟨lo, hi, known, above, by omega⟩, notStart⟩
    · intro condition
      constructor
      · intro ⟨lo, hi, known, above, below, _⟩
        exact ⟨⟨lo, hi, known, above, below⟩, notStart⟩
      · intro ⟨⟨lo, hi, known, above, below⟩, _⟩
        rcases condition with startsHere | none | nearest
        · exact absurd startsHere starts
        · have ends := none lo hi known above
          omega
        · exact nearest

/-- A function of 0x40 bytes with one of 0x10 bytes listed inside it: the address
0x80000430 is in the first only. -/
def nestedBodies : Setup :=
  ⟨[], 0x1000, ⟨0x80000400, 0x1000⟩, 0x80000400,
    [(0x80000400, 0x40), (0x80000410, 0x10)]⟩

theorem insideKnownBody_misses_outer_body :
    ¬ ∀ (setup : Setup) (vram : Int),
      setup.insideKnownBody vram = true ↔ setup.EnclosedByBody vram := by
  intro sees
  have enclosed : nestedBodies.EnclosedByBody 0x80000430 := by
    constructor
    · exact ⟨0x80000400, 0x80000440, ⟨0x40, by decide, by decide, by decide, by decide⟩,
        by decide, by decide⟩
    · intro lo hi ⟨size, known, _⟩ same
      simp only [nestedBodies, List.mem_cons, Prod.mk.injEq, List.not_mem_nil,
        or_false] at known
      omega
  have accepted := (sees nestedBodies 0x80000430).mpr enclosed
  revert accepted
  decide

end Setup

end StadiumRecomp.Mips
