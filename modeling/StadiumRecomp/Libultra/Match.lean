import Mathlib.Data.List.Sort
import StadiumRecomp.Lib.Consensus
import StadiumRecomp.Lib.Dict
import StadiumRecomp.Lib.PyInt
import StadiumRecomp.Libultra.Signature

/-!
Contract: `tools/match_libultra.py`, which names ROM functions after the reference functions with
their signature.

Owns: `ref_signatures`, the loop over the ROM functions and the written renames; that a rename is
justified by the reference, that names and addresses are used once, and that the order of the
reference symbols does not matter.

Does not own: the ELF reader, whose symbols and sections are inputs, `hle_names`, the printed
statistics, and what the recompiler does with the renames.
-/

set_option autoImplicit false

namespace StadiumRecomp.Libultra

open StadiumRecomp.Lib
open StadiumRecomp.Lib.Consensus

/-! ## The reference -/

inductive SymbolType where
  | func
  | other
deriving DecidableEq, Repr

/-- A symbol of the reference. A reserved section index has no number. -/
structure Symbol where
  type : SymbolType
  name : Text
  value : Nat
  size : Nat
  shndx : Option Nat
deriving DecidableEq

structure Section where
  addr : Nat
  data : Bytes

/-- An entry of `functions.json`. -/
structure Fn where
  vram : Int
  size : Int
deriving DecidableEq

/-- What the tool reads besides the symbols. Asking for a section may raise. -/
structure Inputs where
  names : List Text
  sections : Nat → Option Section
  functions : List Fn
  rom : Bytes
  romBase : Int

section Reference

variable {δ : Type} [DecidableEq δ]

/-- The words of a symbol in `ref_signatures`. The inner `none` passes over the symbol, the outer
one raises. -/
def referenceWords (inputs : Inputs) (symbol : Symbol) : Option (Option (List Word)) :=
  if symbol.type ≠ .func then some none
  else if !inputs.names.contains symbol.name ∨ symbol.size ≤ 0 then some none
  else
    match symbol.shndx with
    | none => some none
    | some shndx =>
        match inputs.sections shndx with
        | none => none
        | some sec =>
            let off : Int := symbol.value - sec.addr
            if off < 0 ∨ off + symbol.size > sec.data.length then some none
            else (readWords sec.data off.toNat symbol.size).map some

def refStep (digest : Bytes → δ) (inputs : Inputs) (tally : Tally (Nat × δ) Text)
    (symbol : Symbol) : Option (Tally (Nat × δ) Text) := do
  match ← referenceWords inputs symbol with
  | none => return tally
  | some words => return tally.note (sigOf digest words) symbol.name

/-- `ref_signatures`. -/
def refSignatures (digest : Bytes → δ) (inputs : Inputs) (symbols : List Symbol) :
    Option (Dict (Nat × δ) Text) := do
  let tally ← symbols.foldlM (refStep digest inputs) .empty
  return tally.verdicts

end Reference

/-! ## The ROM -/

section Rom

variable {δ : Type} [DecidableEq δ]

/-- The words of a ROM function in `main`, with `none` as in `referenceWords`. -/
def romWords (inputs : Inputs) (fn : Fn) : Option (Option (List Word)) :=
  let off := fn.vram - inputs.romBase
  if off < 0 ∨ off + fn.size > inputs.rom.length ∨ fn.size ≤ 0 then some none
  else (readWords inputs.rom off.toNat fn.size.toNat).map some

/-- `renames` and `used`. -/
structure Renames where
  renames : Dict Int Text
  used : Dict Text Int

def matchStep (digest : Bytes → δ) (inputs : Inputs) (sig2name : Dict (Nat × δ) Text)
    (state : Renames) (fn : Fn) : Option Renames := do
  match ← romWords inputs fn with
  | none => return state
  | some words =>
      match sig2name.get? (sigOf digest words) with
      | some name =>
          if name = [] then return state
          else if (state.used.get? name).isSome then return state
          else return ⟨state.renames.set fn.vram name, state.used.set name fn.vram⟩
      | none => return state

/-- The renames in the order they are written, none where the tool raises. -/
def matchLibultra (digest : Bytes → δ) (inputs : Inputs) (symbols : List Symbol) :
    Option (List (Int × Text)) := do
  let sig2name ← refSignatures digest inputs symbols
  let state ← inputs.functions.foldlM (matchStep digest inputs sig2name) ⟨[], []⟩
  return state.renames.insertionSort fun left right => left.1 ≤ right.1

/-- The text of `function_renames.txt`. -/
def renamesFile (rows : List (Int × Text)) : Text :=
  Text.unlines '\n'
    (["# function_renames.txt — libultra/libc functions identified by".toList,
      "# signature match vs PokemonStadiumRecomp's pret ELF. 'vram name'".toList,
      "# per line. Auto-generated by tools/match_libultra.py.".toList] ++
    rows.map fun row => PyInt.fmtHex08 row.1 ++ ' ' :: row.2)

/-- `main`: the file written, none where it raises. -/
def main (digest : Bytes → δ) (inputs : Inputs) (symbols : List Symbol) : Option Text :=
  (matchLibultra digest inputs symbols).map renamesFile

end Rom

/-! ## What a rename stands on -/

/-- The symbol is a reference function with these words. -/
def IsReference (inputs : Inputs) (symbols : List Symbol) (name : Text) (words : List Word) :
    Prop :=
  ∃ symbol ∈ symbols, symbol.name = name ∧ referenceWords inputs symbol = some (some words)

/-- Some ROM function at the address has the length and the masked words of a reference function
of that name, and no reference function with another name has them. -/
def Justified (inputs : Inputs) (symbols : List Symbol) (vram : Int) (name : Text) : Prop :=
  ∃ fn ∈ inputs.functions, fn.vram = vram ∧ ∃ words, romWords inputs fn = some (some words) ∧
    (∃ reference, IsReference inputs symbols name reference ∧
      reference.length = words.length ∧ masked reference = masked words) ∧
    ∀ other reference, IsReference inputs symbols other reference →
      masked reference = masked words → other = name

/-! ## The reference signatures -/

section Signatures

variable {δ : Type} [DecidableEq δ]

/-- What a symbol adds to the tally. -/
def entryOf (digest : Bytes → δ) (inputs : Inputs) (symbol : Symbol) :
    Option ((Nat × δ) × Text) :=
  (referenceWords inputs symbol).join.map fun words => (sigOf digest words, symbol.name)

theorem foldlM_refStep (digest : Bytes → δ) (inputs : Inputs) (symbols : List Symbol)
    (tally : Tally (Nat × δ) Text) :
    symbols.foldlM (refStep digest inputs) tally =
      if ∀ symbol ∈ symbols, referenceWords inputs symbol ≠ none then
        some ((symbols.filterMap (entryOf digest inputs)).foldl
          (fun tally entry => tally.note entry.1 entry.2) tally)
      else none := by
  induction symbols generalizing tally with
  | nil => rfl
  | cons symbol rest inductionHypothesis =>
      have head : (∀ entry ∈ symbol :: rest, referenceWords inputs entry ≠ none) ↔
          referenceWords inputs symbol ≠ none ∧
            ∀ entry ∈ rest, referenceWords inputs entry ≠ none := List.forall_mem_cons
      rw [List.foldlM_cons, List.filterMap_cons]
      simp only [head]
      unfold refStep entryOf
      cases read : referenceWords inputs symbol with
      | none =>
          rw [if_neg fun both => both.1 rfl]
          rfl
      | some passed =>
          cases passed with
          | none =>
              show rest.foldlM (refStep digest inputs) tally = _
              rw [inductionHypothesis]
              simp only [ne_eq, reduceCtorEq, not_false_eq_true, true_and, Option.join_some,
                Option.map_none]
              rfl
          | some words =>
              show rest.foldlM (refStep digest inputs) (tally.note _ _) = _
              rw [inductionHypothesis]
              simp only [ne_eq, reduceCtorEq, not_false_eq_true, true_and, Option.join_some,
                Option.map_some]
              rfl

/-- The entries of the reference symbols, unless one of them raises. -/
theorem refSignatures_eq (digest : Bytes → δ) (inputs : Inputs) (symbols : List Symbol) :
    refSignatures digest inputs symbols =
      if ∀ symbol ∈ symbols, referenceWords inputs symbol ≠ none then
        some (tallyOf (symbols.filterMap (entryOf digest inputs))).verdicts
      else none := by
  unfold refSignatures
  rw [foldlM_refStep]
  split
  · rfl
  · rfl

omit [DecidableEq δ] in
theorem mem_entries_iff {digest : Bytes → δ} {inputs : Inputs} {symbols : List Symbol}
    {sig : Nat × δ} {name : Text} :
    (sig, name) ∈ symbols.filterMap (entryOf digest inputs) ↔
      ∃ words, IsReference inputs symbols name words ∧ sigOf digest words = sig := by
  rw [List.mem_filterMap]
  unfold entryOf IsReference
  constructor
  · intro ⟨symbol, member, entry⟩
    obtain ⟨words, read, same⟩ := Option.map_eq_some_iff.mp entry
    cases same
    exact ⟨words, ⟨symbol, member, rfl, Option.join_eq_some_iff.mp read⟩, rfl⟩
  · intro ⟨words, ⟨symbol, member, named, read⟩, same⟩
    refine ⟨symbol, member, ?_⟩
    rw [read, named, ← same]
    rfl

end Signatures

/-! ## The loop over the ROM -/

section Loop

variable {δ : Type} [DecidableEq δ] {digest : Bytes → δ} {inputs : Inputs}
  {sig2name : Dict (Nat × δ) Text}

/-- A function is passed over, or gets a name that was not used yet. -/
theorem matchStep_cases {state next : Renames} {fn : Fn}
    (stepped : matchStep digest inputs sig2name state fn = some next) :
    next = state ∨ ∃ words name, romWords inputs fn = some (some words) ∧
      sig2name.get? (sigOf digest words) = some name ∧ state.used.get? name = none ∧
      next = ⟨state.renames.set fn.vram name, state.used.set name fn.vram⟩ := by
  unfold matchStep at stepped
  obtain ⟨read, readEq, stepped⟩ := Option.bind_eq_some_iff.mp stepped
  cases read with
  | none => exact Or.inl (Option.some.inj stepped).symm
  | some words =>
      cases found : sig2name.get? (sigOf digest words) with
      | none =>
          simp only [found] at stepped
          exact Or.inl (Option.some.inj stepped).symm
      | some name =>
          simp only [found] at stepped
          split at stepped
          · exact Or.inl (Option.some.inj stepped).symm
          · split at stepped
            · exact Or.inl (Option.some.inj stepped).symm
            next fresh =>
              have unused : state.used.get? name = none := by simpa using fresh
              exact Or.inr ⟨words, name, readEq, found, unused, (Option.some.inj stepped).symm⟩

/-- What holds of the two maps at every function. -/
structure Sofar (digest : Bytes → δ) (inputs : Inputs) (sig2name : Dict (Nat × δ) Text)
    (state : Renames) : Prop where
  distinct : Dict.Distinct state.renames
  named : ∀ row ∈ state.renames, ∃ fn ∈ inputs.functions, fn.vram = row.1 ∧
    ∃ words, romWords inputs fn = some (some words) ∧
      sig2name.get? (sigOf digest words) = some row.2
  used : ∀ row ∈ state.renames, state.used.get? row.2 = some row.1

theorem Sofar.step {state next : Renames} (sofar : Sofar digest inputs sig2name state) {fn : Fn}
    (member : fn ∈ inputs.functions)
    (stepped : matchStep digest inputs sig2name state fn = some next) :
    Sofar digest inputs sig2name next := by
  obtain same | ⟨words, name, read, found, unused, rfl⟩ := matchStep_cases stepped
  · exact same ▸ sofar
  · constructor
    · exact sofar.distinct.set fn.vram name
    · intro row inside
      rcases Dict.mem_set inside with rfl | before
      · exact ⟨fn, member, rfl, words, read, found⟩
      · exact sofar.named row before
    · intro row inside
      rcases Dict.mem_set inside with rfl | before
      · exact Dict.get?_set_self _ _ _
      · have usedBefore := sofar.used row before
        have other : name ≠ row.2 := by
          intro same
          rw [← same, unused] at usedBefore
          cases usedBefore
        rw [Dict.get?_set, if_neg other]
        exact usedBefore

theorem Sofar.run {functions : List Fn} {state last : Renames}
    (sofar : Sofar digest inputs sig2name state)
    (members : ∀ fn ∈ functions, fn ∈ inputs.functions)
    (ran : functions.foldlM (matchStep digest inputs sig2name) state = some last) :
    Sofar digest inputs sig2name last := by
  induction functions generalizing state with
  | nil =>
      cases ran
      exact sofar
  | cons fn rest inductionHypothesis =>
      rw [List.foldlM_cons] at ran
      obtain ⟨next, stepped, ran⟩ := Option.bind_eq_some_iff.mp ran
      have nextSofar := sofar.step (members fn List.mem_cons_self) stepped
      exact inductionHypothesis nextSofar
        (fun entry later => members entry (List.mem_cons_of_mem _ later)) ran

theorem sofar_empty : Sofar digest inputs sig2name ⟨[], []⟩ where
  distinct := Dict.Distinct.nil
  named _ inside := absurd inside List.not_mem_nil
  used _ inside := absurd inside List.not_mem_nil

theorem Sofar.names_nodup {state : Renames} (sofar : Sofar digest inputs sig2name state) :
    (state.renames.map Prod.snd).Nodup := by
  apply List.Nodup.map_on _ (List.Nodup.of_map _ sofar.distinct)
  intro row inside other otherInside same
  have address := sofar.used row inside
  rw [same, sofar.used other otherInside] at address
  exact Prod.ext (Option.some.inj address).symm same

/-- The loop only looks signatures up. -/
theorem matchStep_congr {left right : Dict (Nat × δ) Text}
    (same : ∀ sig, left.get? sig = right.get? sig) :
    matchStep digest inputs left = matchStep digest inputs right := by
  funext state fn
  unfold matchStep
  simp only [same]

end Loop

/-! ## The renames -/

section Result

variable {δ : Type} [DecidableEq δ] {digest : Bytes → δ} {inputs : Inputs}
  {symbols : List Symbol}

/-- A signature of the reference is a name that all its symbols agree on. -/
theorem justified_of_get? (collisionFree : Function.Injective digest) {fn : Fn}
    (member : fn ∈ inputs.functions) {words : List Word}
    (read : romWords inputs fn = some (some words)) {name : Text}
    (found : (tallyOf (symbols.filterMap (entryOf digest inputs))).verdicts.get?
      (sigOf digest words) = some name) : Justified inputs symbols fn.vram name := by
  obtain ⟨entry, agreed⟩ := get?_verdicts_tallyOf.mp found
  refine ⟨fn, member, rfl, words, read, ?_, ?_⟩
  · obtain ⟨reference, isReference, same⟩ := mem_entries_iff.mp entry
    have maskedSame := (sigOf_eq_iff collisionFree).mp same
    exact ⟨reference, isReference, congrArg Prod.fst same, maskedSame⟩
  · intro other reference isReference same
    apply agreed other
    rw [mem_entries_iff]
    exact ⟨reference, isReference, (sigOf_eq_iff collisionFree).mpr same⟩

theorem matchLibultra_sound (collisionFree : Function.Injective digest)
    {rows : List (Int × Text)} (matched : matchLibultra digest inputs symbols = some rows) :
    (∀ row ∈ rows, Justified inputs symbols row.1 row.2) ∧
      (rows.map Prod.fst).Nodup ∧ (rows.map Prod.snd).Nodup := by
  unfold matchLibultra at matched
  obtain ⟨sig2name, signatures, matched⟩ := Option.bind_eq_some_iff.mp matched
  obtain ⟨last, ran, sorted⟩ := Option.bind_eq_some_iff.mp matched
  have perm : rows.Perm last.renames := by
    rw [← Option.some.inj sorted]
    exact List.perm_insertionSort _ _
  have sofar := sofar_empty.run (fun fn member => member) ran
  refine ⟨?_, ?_, ?_⟩
  · intro row inside
    obtain ⟨fn, member, address, words, read, found⟩ := sofar.named row (perm.mem_iff.mp inside)
    rw [refSignatures_eq] at signatures
    split at signatures
    · cases signatures
      rw [← address]
      exact justified_of_get? collisionFree member read found
    · cases signatures
  · rw [(perm.map _).nodup_iff]
    exact sofar.distinct
  · rw [(perm.map _).nodup_iff]
    exact sofar.names_nodup

theorem matchLibultra_perm {other : List Symbol} (perm : other.Perm symbols) :
    matchLibultra digest inputs other = matchLibultra digest inputs symbols := by
  have readable : (∀ symbol ∈ other, referenceWords inputs symbol ≠ none) ↔
      ∀ symbol ∈ symbols, referenceWords inputs symbol ≠ none := by
    simp only [perm.mem_iff]
  have verdicts := verdicts_perm (perm.filterMap (entryOf digest inputs))
  unfold matchLibultra
  rw [refSignatures_eq, refSignatures_eq]
  simp only [readable]
  split
  · simp only [Option.bind_eq_bind, Option.bind_some]
    rw [matchStep_congr verdicts]
  · rfl

end Result

/-- Every rename has its reference and no rival, no name and no address is used twice, the order
of the reference symbols does not matter, and relocation does not change a signature. -/
theorem matchLibultra_correct {δ : Type} [DecidableEq δ] (digest : Bytes → δ)
    (collisionFree : Function.Injective digest) (inputs : Inputs) (symbols : List Symbol) :
    (∀ rows, matchLibultra digest inputs symbols = some rows →
      (∀ row ∈ rows, Justified inputs symbols row.1 row.2) ∧
        (rows.map Prod.fst).Nodup ∧ (rows.map Prod.snd).Nodup) ∧
    (∀ other, other.Perm symbols →
      matchLibultra digest inputs other = matchLibultra digest inputs symbols ∧
        main digest inputs other = main digest inputs symbols) ∧
    ∀ words moved, List.Forall₂ Relocated words moved →
      sigOf digest moved = sigOf digest words := by
  refine ⟨?_, ?_, ?_⟩
  · intro rows matched
    exact matchLibultra_sound collisionFree matched
  · intro other perm
    have same := @matchLibultra_perm δ _ digest inputs symbols other perm
    exact ⟨same, congrArg (Option.map renamesFile) same⟩
  · intro words moved relocated
    exact (sigOf_eq_iff collisionFree).mpr (masked_relocated relocated)

/-! ## A call and a return -/

/-- A function of three words whose call goes to another address than in the ROM. -/
def callSymbol : Symbol := ⟨.func, "osSendMesg".toList, 0x80001000, 12, some 1⟩

def callInputs : Inputs where
  names := ["osRecvMesg".toList, "osSendMesg".toList]
  sections shndx :=
    if shndx = 1 then
      some ⟨0x80001000, [0x0C, 0, 0, 0x10, 0x03, 0xE0, 0, 0x08, 0, 0, 0, 0]⟩
    else none
  functions := [⟨0x80000400, 12⟩]
  rom := [0x0C, 0, 1, 0x23, 0x03, 0xE0, 0, 0x08, 0, 0, 0, 0]
  romBase := 0x80000400

/-- The masked bytes of the function. -/
def callBytes : Bytes := [0x0C, 0, 0, 0, 0x03, 0xE0, 0, 0x08, 0, 0, 0, 0]

/-- The hexadecimal SHA-1 digest of the masked bytes, and for other bytes some text that is none. -/
def callDigest (bytes : Bytes) : Bytes :=
  if bytes = callBytes then CString.bytesOf "fb359fbb75e844b35262ee6a60375e1684653954"
  else 0 :: bytes

theorem callDigest_injective : Function.Injective callDigest := by
  have head : (CString.bytesOf "fb359fbb75e844b35262ee6a60375e1684653954").head? ≠ some 0 := by
    decide +kernel
  intro left right same
  unfold callDigest at same
  split at same
  next leftCall =>
    split at same
    next rightCall => rw [leftCall, rightCall]
    next => exact absurd (congrArg List.head? same) head
  next =>
    split at same
    next => exact absurd (congrArg List.head? same.symm) head
    next => exact List.tail_eq_of_cons_eq same

theorem matchLibultra_correct_call :
    (∀ row ∈ [((0x80000400 : Int), "osSendMesg".toList)],
      Justified callInputs [callSymbol] row.1 row.2) ∧
    main callDigest callInputs [callSymbol] =
      some (renamesFile [(0x80000400, "osSendMesg".toList)]) := by
  have matched : matchLibultra callDigest callInputs [callSymbol] =
      some [(0x80000400, "osSendMesg".toList)] := by decide +kernel
  have correct := matchLibultra_correct callDigest callDigest_injective callInputs [callSymbol]
  exact ⟨(correct.1 _ matched).1, congrArg (Option.map renamesFile) matched⟩

end StadiumRecomp.Libultra
