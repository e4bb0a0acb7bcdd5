import StadiumRecomp.Translate.Authored

/-!
Contract: a build over an earlier `translations.json`, seen by the loader before and
after it.

Owns: the strings `key_en.tsv` does not produce again, what the objects of the old file
say for them, and exactly when they mean the same after the build.

Does not own: the strings `key_en.tsv` does produce.
-/

set_option autoImplicit false

namespace StadiumRecomp.Translate

open StadiumRecomp.Lib
open StadiumRecomp.Lib.PyJson

variable (lower : Text → Text) (pyStr : Json → Text)

/-- No row of `key_en.tsv` produces the string with this hash. -/
def NotReproduced (inventory : Inventory) (keyEn : Text) (hash : UInt64) : Prop :=
  ∀ joined ∈ joinRows lower inventory keyEn, joined.row.hash ≠ hash

/-- What the runtime uses of an entry. -/
def XlateVal.shown (value : XlateVal) : Bytes × Int := (value.en, value.fitW)

/-- The strings that are not produced again mean the same in both files. -/
def KeepsOld (inventory : Inventory) (keyEn : Text) (before after : Bytes) : Prop :=
  ∀ hash, NotReproduced lower inventory keyEn hash →
    (Dict.get? (loadTranslations after) hash).map XlateVal.shown =
      (Dict.get? (loadTranslations before) hash).map XlateVal.shown

/-! ## The old file -/

/-- An object of the old file; a field it has not is the empty text. -/
def objectEntry : Json → Option Entry
  | .obj members =>
      let field (name : String) : Json := (PyJson.get? members name).getD (.str (some []))
      some ⟨strOf pyStr (field "src_hex"), field "src_jp", field "target"⟩
  | _ => none

/-- The objects of the old file: none at all when it is not strict JSON, and `none` when
not all of its elements are objects. -/
def oldObjects (before : Bytes) : Option (List Entry) :=
  match (Utf8.decode before).bind (fun text => loads (PyText.universalNewlines text)) with
  | none => some []
  | some parsed => (iterate parsed).bind (fun items => items.mapM (objectEntry pyStr))

/-- `other` has a source that is spelled like this one up to case. -/
def spelledLike (source : Text) (other : Entry) : Bool :=
  other.srcHex.any fun spelling => !spelling.isEmpty && lower spelling == lower source

/-- An object counts unless its source is empty or spelled like one of `known` or like
that of an object in front of it. -/
def counts (known : List Text) (front : List Entry) (entry : Entry) : Bool :=
  entry.srcHex.all fun source =>
    !source.isEmpty && !known.contains (lower source) && !front.any (spelledLike lower source)

/-- The objects that count, behind those in `front`. -/
def counting (known : List Text) : List Entry → List Entry → List Entry
  | _, [] => []
  | front, entry :: rest =>
      (if counts lower known front entry then [entry] else []) ++
        counting known (front ++ [entry]) rest

/-- The spellings the build produces from `key_en.tsv`. -/
def producedSpellings (inventory : Inventory) (keyEn : Text) : List Text :=
  (joinRows lower inventory keyEn).map fun joined => lower joined.row.srcHex

/-- An object has the last word on a string: it counts behind those in `front`, is
written like all of these that count, says something for the string, and no object behind
it that counts does. -/
structure LastWord (known : List Text) (objects : List Entry) (hash : UInt64) (said : XlateVal)
    (front : List Entry) (entry : Entry) (back : List Entry) : Prop where
  place : objects = front ++ entry :: back
  isCounted : counts lower known front entry = true
  written : ∀ other ∈ counting lower known [] (front ++ [entry]), other.isWritten = true
  speaks : Dict.lastWrite (entry.saying (counting lower known (front ++ [entry]) back)) hash =
    some said
  last : Dict.lastWrite (sayings (counting lower known (front ++ [entry]) back)) hash = none

/-- What the object with the last word says for a string. -/
def LastSaid (known : List Text) (objects : List Entry) (hash : UInt64) (said : XlateVal) : Prop :=
  ∃ front entry back, LastWord lower known objects hash said front entry back

/-- On the strings that are not produced again, the objects of the old file and the loader
agree: what the loader reads has an object, and the object with the last word says what
the loader reads, with the same width. -/
structure ReadersAgree (inventory : Inventory) (keyEn : Text) (before : Bytes)
    (objects : List Entry) : Prop where
  found : ∀ hash value, NotReproduced lower inventory keyEn hash →
    Dict.get? (loadTranslations before) hash = some value →
      ∃ said, LastSaid lower (producedSpellings lower inventory keyEn) objects hash said
  heard : ∀ hash said, NotReproduced lower inventory keyEn hash →
    LastSaid lower (producedSpellings lower inventory keyEn) objects hash said →
      ∃ value, Dict.get? (loadTranslations before) hash = some value ∧ said.en = value.en ∧
        said.fitW = value.fitW

/-! ## The last word -/

theorem counting_append (known : List Text) (front left right : List Entry) :
    counting lower known front (left ++ right) =
      counting lower known front left ++ counting lower known (front ++ left) right := by
  induction left generalizing front with
  | nil => simp [counting]
  | cons entry left inductionHypothesis =>
      rw [List.cons_append, counting, counting, inductionHypothesis, List.append_assoc,
        List.append_assoc]
      rfl

/-- Written rows that are not last are read in full, and the others behind them. -/
theorem sayings_append {left : List Entry} (written : ∀ entry ∈ left, entry.isWritten = true)
    (right : List Entry) : ∃ said, sayings (left ++ right) = said ++ sayings right := by
  induction left with
  | nil => exact ⟨[], rfl⟩
  | cons entry left inductionHypothesis =>
      obtain ⟨said, later⟩ := inductionHypothesis
        (fun other member => written other (List.mem_cons_of_mem _ member))
      rw [List.cons_append, sayings, if_pos (written entry List.mem_cons_self), later]
      exact ⟨_, (List.append_assoc _ _ _).symm⟩

/-- The last saying of entries is that of one of them, all written up to it. -/
theorem lastWrite_sayings {entries : List Entry} {hash : UInt64} {said : XlateVal}
    (spoken : Dict.lastWrite (sayings entries) hash = some said) :
    ∃ front entry back, entries = front ++ entry :: back ∧
      (∀ other ∈ front ++ [entry], other.isWritten = true) ∧
      Dict.lastWrite (entry.saying back) hash = some said ∧
      Dict.lastWrite (sayings back) hash = none := by
  induction entries with
  | nil => cases spoken
  | cons entry rest inductionHypothesis =>
      rw [sayings] at spoken
      split at spoken
      next written =>
        rw [Dict.lastWrite_append] at spoken
        cases later : Dict.lastWrite (sayings rest) hash with
        | none =>
            rw [later, Option.none_or] at spoken
            refine ⟨[], entry, rest, rfl, ?_, spoken, later⟩
            intro other member
            rw [List.mem_singleton.mp member]
            exact written
        | some other =>
            rw [later, Option.some_or] at spoken
            obtain ⟨front, last, back, rfl, allWritten, speaks, silent⟩ :=
              inductionHypothesis (later.trans spoken)
            refine ⟨entry :: front, last, back, rfl, ?_, speaks, silent⟩
            intro other member
            rcases List.mem_cons.mp member with rfl | inRest
            · exact written
            · exact allWritten other inRest
      next => cases spoken

/-- An object that counts stands at its place among the others. -/
theorem counting_split {known : List Text} {front objects counted behind : List Entry}
    {entry : Entry} (split : counting lower known front objects = counted ++ entry :: behind) :
    ∃ left right, objects = left ++ entry :: right ∧
      counts lower known (front ++ left) entry = true ∧
      counting lower known front left = counted ∧
      counting lower known (front ++ left ++ [entry]) right = behind := by
  induction objects generalizing front counted with
  | nil => simp [counting] at split
  | cons head rest inductionHypothesis =>
      rw [counting] at split
      by_cases isCounted : counts lower known front head = true
      · rw [if_pos isCounted] at split
        cases counted with
        | nil =>
            obtain ⟨rfl, tail⟩ := List.cons.inj split
            exact ⟨[], rest, rfl, by rw [List.append_nil]; exact isCounted, rfl,
              by rw [List.append_nil]; exact tail⟩
        | cons first counted =>
            obtain ⟨rfl, tail⟩ := List.cons.inj split
            obtain ⟨left, right, rfl, atPlace, before, after⟩ := inductionHypothesis tail
            refine ⟨head :: left, right, rfl, ?_, ?_, ?_⟩
            · rwa [List.append_cons]
            · rw [counting, if_pos isCounted, before]
              rfl
            · rwa [List.append_cons front head left]
      · rw [if_neg isCounted, List.nil_append] at split
        obtain ⟨left, right, rfl, atPlace, before, after⟩ := inductionHypothesis split
        refine ⟨head :: left, right, rfl, ?_, ?_, ?_⟩
        · rwa [List.append_cons]
        · rw [counting, if_neg isCounted, before]
          rfl
        · rwa [List.append_cons front head left]

theorem lastSaid_iff (known : List Text) (objects : List Entry) (hash : UInt64)
    (said : XlateVal) :
    LastSaid lower known objects hash said ↔
      Dict.lastWrite (sayings (counting lower known [] objects)) hash = some said := by
  have alone : ∀ {front : List Entry} {entry : Entry}, counts lower known front entry = true →
      counting lower known front [entry] = [entry] := by
    intro front entry isCounted
    rw [counting, if_pos isCounted]
    rfl
  constructor
  · rintro ⟨front, entry, back, rfl, isCounted, written, speaks, last⟩
    have shape : counting lower known [] (front ++ entry :: back) =
        counting lower known [] front ++ entry :: counting lower known (front ++ [entry]) back := by
      rw [counting_append, List.nil_append, counting, if_pos isCounted]
      rfl
    rw [counting_append, List.nil_append, alone isCounted] at written
    obtain ⟨earlier, sayingsEq⟩ := sayings_append
      (fun other member => written other (List.mem_append_left _ member))
      (entry :: counting lower known (front ++ [entry]) back)
    have isWritten := written entry (List.mem_append_right _ (List.mem_singleton.mpr rfl))
    rw [shape, sayingsEq, Dict.lastWrite_append, sayings, if_pos isWritten,
      Dict.lastWrite_append, last, Option.none_or, speaks, Option.some_or]
  · intro spoken
    obtain ⟨counted, entry, behind, split, written, speaks, last⟩ := lastWrite_sayings spoken
    obtain ⟨left, right, rfl, isCounted, before, after⟩ := counting_split lower split
    rw [List.nil_append] at isCounted after
    refine ⟨left, entry, right, rfl, isCounted, ?_, by rw [after]; exact speaks,
      by rw [after]; exact last⟩
    rw [counting_append, List.nil_append, alone isCounted, before]
    exact written

/-! ## The merge -/

/-- The merge's step on an object. -/
def mergeEntry (state : List Text × List Entry) (entry : Entry) : List Text × List Entry :=
  match entry.srcHex with
  | none => (state.1, state.2 ++ [entry])
  | some source =>
      if source.isEmpty || state.1.contains (lower source) then state
      else (lower source :: state.1, state.2 ++ [entry])

theorem mergeItem_eq (state : List Text × List Entry) (item : Json) :
    mergeItem lower pyStr state item = (objectEntry pyStr item).map (mergeEntry lower state) := by
  cases item with
  | obj members =>
      simp only [mergeItem, objectEntry, Option.map_some, mergeEntry]
      cases strOf pyStr ((PyJson.get? members "src_hex").getD (.str (some []))) with
      | none => rfl
      | some source =>
          simp only [Bool.or_eq_true, List.isEmpty_iff, List.contains_iff_mem]
          exact (apply_ite some _ _ _).symm
  | _ => rfl

/-- The spellings held by the merge are those known and those in front. -/
def Holds (known : List Text) (front : List Entry) (held : List Text) : Prop :=
  ∀ source, lower source ∈ held ↔
    lower source ∈ known ∨ front.any (spelledLike lower source) = true

theorem foldl_mergeEntry {known held : List Text} {front : List Entry}
    (holds : Holds lower known front held) (entries carried : List Entry) :
    (entries.foldl (mergeEntry lower) (held, carried)).2 =
      carried ++ counting lower known front entries := by
  induction entries generalizing held front carried with
  | nil => simp [counting]
  | cons entry rest inductionHypothesis =>
      rw [List.foldl_cons, counting]
      cases spelling : entry.srcHex with
      | none =>
          have next : Holds lower known (front ++ [entry]) held := by
            intro source
            rw [holds source, List.any_append]
            simp [spelledLike, spelling]
          have isCounted : counts lower known front entry = true := by simp [counts, spelling]
          rw [mergeEntry, spelling, isCounted]
          simp only
          rw [inductionHypothesis next]
          simp
      | some source =>
          have isCounted : counts lower known front entry = true ↔
              ¬ (source = [] ∨ lower source ∈ held) := by
            rw [holds source, counts, spelling]
            simp [and_assoc]
          rw [mergeEntry, spelling]
          simp only [Bool.or_eq_true, List.isEmpty_iff, List.contains_iff_mem]
          by_cases skipped : source = [] ∨ lower source ∈ held
          · have next : Holds lower known (front ++ [entry]) held := by
              intro other
              rw [holds other, List.any_append, List.any_cons, List.any_nil, Bool.or_false,
                Bool.or_eq_true, ← or_assoc, ← holds other, iff_self_or]
              intro alike
              simp only [spelledLike, spelling, Option.any_some, Bool.and_eq_true, Bool.not_eq_true',
                List.isEmpty_eq_false_iff, beq_iff_eq] at alike
              rw [← alike.2]
              exact skipped.resolve_left alike.1
            rw [if_pos skipped, inductionHypothesis next, if_neg (fun counted =>
              isCounted.mp counted skipped), List.nil_append]
          · have next : Holds lower known (front ++ [entry]) (lower source :: held) := by
              intro other
              have someSource : source ≠ [] := fun empty => skipped (Or.inl empty)
              have alike : spelledLike lower other entry = true ↔ lower other = lower source := by
                simp only [spelledLike, spelling, Option.any_some, Bool.and_eq_true,
                  Bool.not_eq_true', List.isEmpty_eq_false_iff, beq_iff_eq]
                exact ⟨fun same => same.2.symm, fun same => ⟨someSource, same.symm⟩⟩
              rw [List.mem_cons, holds other, List.any_append, List.any_cons, List.any_nil,
                Bool.or_false, Bool.or_eq_true, alike]
              tauto
            rw [if_neg skipped, inductionHypothesis next, if_pos (isCounted.mpr skipped),
              List.append_assoc]

/-- The merge carries over the objects that count. -/
theorem preservedEntries_eq (known : List Text) (before : Bytes) :
    preservedEntries lower pyStr known before =
      (oldObjects pyStr before).map (counting lower known []) := by
  have merged : ∀ (items : List Json) (state : List Text × List Entry),
      items.foldlM (mergeItem lower pyStr) state =
        (items.mapM (objectEntry pyStr)).map (List.foldl (mergeEntry lower) state) := by
    intro items
    induction items with
    | nil => intro state; rfl
    | cons item rest inductionHypothesis =>
        intro state
        rw [List.foldlM_cons, mergeItem_eq, List.mapM_cons]
        cases objectEntry pyStr item with
        | none => rfl
        | some entry =>
            simp only [Option.map_some, Option.bind_eq_bind, Option.bind_some, inductionHypothesis]
            cases rest.mapM (objectEntry pyStr) <;> rfl
  have start : Holds lower known [] known := by simp [Holds]
  unfold preservedEntries oldObjects
  cases (Utf8.decode before).bind (fun text => loads (PyText.universalNewlines text)) with
  | none => rfl
  | some parsed =>
      simp only
      cases iterate parsed with
      | none => rfl
      | some items =>
          simp only [Option.bind_some, merged, Option.map_map]
          congr 1
          funext entries
          exact foldl_mergeEntry lower start entries []

/-! ## The new table -/

theorem reading_eq_some {texts : TextEntry} {hash : UInt64} {value : XlateVal}
    (read : texts.reading = some (hash, value)) :
    pmsFnv1a (hexBytes (Utf8.encode texts.srcHex)) = hash ∧ value.fitW = -1 := by
  unfold TextEntry.reading rowReading at read
  obtain ⟨_, pairEq⟩ := Option.ite_none_right_eq_some.mp read
  cases pairEq
  exact ⟨rfl, rfl⟩

section Merge

variable {lower} {inventory : Inventory} {keyEn : Text}

/-- Strings not produced again are read from the objects that count. -/
theorem get?_afterMerge
    (hex : ∀ key row, Dict.get? (inventoryRows lower inventory) key = some row → IsHex row.srcHex)
    (objects : List Entry) {hash : UInt64}
    (notReproduced : NotReproduced lower inventory keyEn hash) :
    Dict.get? (loadTranslations (writeEntries ((joinRows lower inventory keyEn).map Joined.entry ++
        counting lower (producedSpellings lower inventory keyEn) [] objects))) hash =
      Dict.lastWrite (sayings
        (counting lower (producedSpellings lower inventory keyEn) [] objects)) hash := by
  have joinedNone : Dict.lastWrite
      (((joinRows lower inventory keyEn).map Joined.texts).filterMap TextEntry.reading) hash =
        none := by
    rw [Dict.lastWrite_eq_none_iff]
    intro ⟨other, value⟩ member same
    obtain ⟨row, inRows, read⟩ := List.mem_filterMap.mp member
    obtain ⟨joined, inJoined, rfl⟩ := List.mem_map.mp inRows
    exact notReproduced joined inJoined ((reading_eq_some read).1.trans same)
  unfold loadTranslations
  rw [loadEntries_writeEntries, sayings_joinRows lower hex, Dict.get?_writes, Dict.get?_nil,
    Option.or_none, Dict.lastWrite_append, joinedNone, Option.or_none]

/-- After the merge the other strings mean the same exactly when the readers agree. -/
theorem keepsOld_iff
    (hex : ∀ key row, Dict.get? (inventoryRows lower inventory) key = some row → IsHex row.srcHex)
    (before : Bytes) (objects : List Entry) :
    KeepsOld lower inventory keyEn before
        (writeEntries ((joinRows lower inventory keyEn).map Joined.entry ++
          counting lower (producedSpellings lower inventory keyEn) [] objects)) ↔
      ReadersAgree lower inventory keyEn before objects := by
  constructor
  · intro keeps
    constructor
    · intro hash value notReproduced read
      have same := keeps hash notReproduced
      rw [get?_afterMerge hex objects notReproduced, read, Option.map_some,
        Option.map_eq_some_iff] at same
      obtain ⟨said, spoken, _⟩ := same
      exact ⟨said, (lastSaid_iff lower _ _ _ _).mpr spoken⟩
    · intro hash said notReproduced spoken
      have same := keeps hash notReproduced
      rw [get?_afterMerge hex objects notReproduced, (lastSaid_iff lower _ _ _ _).mp spoken,
        Option.map_some, eq_comm, Option.map_eq_some_iff] at same
      obtain ⟨value, read, shown⟩ := same
      exact ⟨value, read, congrArg Prod.fst shown.symm, congrArg Prod.snd shown.symm⟩
  · intro agree hash notReproduced
    rw [get?_afterMerge hex objects notReproduced]
    cases spoken : Dict.lastWrite (sayings
      (counting lower (producedSpellings lower inventory keyEn) [] objects)) hash with
    | some said =>
        obtain ⟨value, read, english, width⟩ := agree.heard hash said notReproduced
          ((lastSaid_iff lower _ _ _ _).mpr spoken)
        rw [read, Option.map_some, Option.map_some, XlateVal.shown, XlateVal.shown, english,
          width]
    | none =>
        cases read : Dict.get? (loadTranslations before) hash with
        | none => rfl
        | some value =>
            obtain ⟨said, found⟩ := agree.found hash value notReproduced read
            rw [lastSaid_iff, spoken] at found
            cases found

end Merge

/-- Objects with a text in each place carry no width, so the loader may read none. -/
theorem ReadersAgree.noWidth {lower : Text → Text} {inventory : Inventory} {keyEn : Text}
    {before : Bytes} {objects : List Entry}
    (agree : ReadersAgree lower inventory keyEn before objects)
    (texts : ∀ entry ∈ objects, entry.texts?.isSome) {hash : UInt64} {value : XlateVal}
    (notReproduced : NotReproduced lower inventory keyEn hash)
    (read : Dict.get? (loadTranslations before) hash = some value) : value.fitW = -1 := by
  obtain ⟨said, lastSaid⟩ := agree.found hash value notReproduced read
  obtain ⟨same, sameEq, _, width⟩ := agree.heard hash said notReproduced lastSaid
  rw [read] at sameEq
  cases sameEq
  obtain ⟨front, entry, back, place, _, _, speaks, _⟩ := lastSaid
  obtain ⟨own, ownEq⟩ := Option.isSome_iff_exists.mp (texts entry (by rw [place]; simp))
  have spoken := Dict.mem_of_lastWrite speaks
  rw [Entry.saying, ownEq, Option.mem_toList] at spoken
  rw [← width]
  exact (reading_eq_some spoken).2

/-- A build keeps what it does not produce again exactly when the tool stops before it
writes, at an element that is no object, or the loader and the strict reader agree on
the old file. -/
theorem cmdBuild_keepsOld_iff {inventory : Inventory}
    (hex : ∀ key row, Dict.get? (inventoryRows lower inventory) key = some row → IsHex row.srcHex)
    (keyEn : Text) (before : Bytes) :
    ∃ after, cmdBuild lower pyStr inventory (some keyEn) (some before) = some after ∧
      (KeepsOld lower inventory keyEn before after ↔
        ∀ objects, oldObjects pyStr before = some objects →
          ReadersAgree lower inventory keyEn before objects) := by
  have carried := preservedEntries_eq lower pyStr (producedSpellings lower inventory keyEn) before
  unfold producedSpellings at carried
  cases read : oldObjects pyStr before with
  | none =>
      rw [read, Option.map_none] at carried
      refine ⟨before, by simp only [cmdBuild, carried], iff_of_true (fun _ _ => rfl) ?_⟩
      intro objects impossible
      cases impossible
  | some objects =>
      rw [read, Option.map_some] at carried
      refine ⟨_, by simp only [cmdBuild, carried]; rfl, ?_⟩
      refine (keepsOld_iff hex before objects).trans ⟨fun agree other same => ?_, fun agree =>
        agree objects rfl⟩
      cases same
      exact agree


/-! ## Hand edits -/

/-- An entry with a width, as the loader's schema shows it. -/
def widthFile : Bytes :=
  CString.bytesOf "[ \x7b \"src_hex\":\"a4a2\", \"target\":\"A\", \"fit_w\":8 \x7d ]\n"

/-- A row for another string. -/
def paruKeyEn : Text := Text.ascii "0xA8F686DD1968E233\tCloyster\n"

/-- An entry without one, spelled in capitals. -/
def capitalsFile : Bytes :=
  CString.bytesOf "[ \x7b \"note\":\"kana\", \"src_hex\":\"A4A2\", \"target\":\"A\" \x7d ]\n"

theorem cmdBuild_keepsOld_iff_example :
    ∃ after, cmdBuild asciiLower (fun _ => []) (oneString paruRow) (some paruKeyEn)
        (some capitalsFile) = some after ∧
      KeepsOld asciiLower (oneString paruRow) paruKeyEn capitalsFile after := by
  have wellKept : (oneString paruRow).WellKept asciiLower :=
    wellKept_oneString asciiLower (by decide)
  obtain ⟨after, written, keeps⟩ :=
    cmdBuild_keepsOld_iff asciiLower (fun _ => []) wellKept.hex paruKeyEn capitalsFile
  refine ⟨after, written, keeps.mpr fun objects read => ?_⟩
  have table : loadTranslations capitalsFile =
      [(pmsFnv1a [0xA4, 0xA2], ⟨CString.bytesOf "A", -1, -1⟩)] := by decide +kernel
  have spoken : (oldObjects (fun _ => []) capitalsFile).map (fun objects =>
      sayings (counting asciiLower (producedSpellings asciiLower (oneString paruRow) paruKeyEn) []
        objects)) = some [(pmsFnv1a [0xA4, 0xA2], ⟨CString.bytesOf "A", -1, -1⟩)] := by
    decide +kernel
  rw [read, Option.map_some, Option.some.injEq] at spoken
  have same : ∀ hash said, LastSaid asciiLower
      (producedSpellings asciiLower (oneString paruRow) paruKeyEn) objects hash said ↔
        Dict.get? (loadTranslations capitalsFile) hash = some said := by
    intro hash said
    rw [lastSaid_iff, spoken, table, Dict.get?_cons, Dict.get?_nil]
    rfl
  constructor
  · intro hash value _ old
    exact ⟨value, (same hash value).mpr old⟩
  · intro hash said _ new
    exact ⟨said, (same hash said).mp new, rfl, rfl⟩

/-- A build drops the width of an entry it carries over. -/
theorem cmdBuild_loses_width :
    ∃ after, cmdBuild asciiLower (fun _ => []) (oneString paruRow) (some paruKeyEn)
        (some widthFile) = some after ∧
      Dict.get? (loadTranslations widthFile) (pmsFnv1a [0xA4, 0xA2]) =
        some ⟨CString.bytesOf "A", -1, 8⟩ ∧
      Dict.get? (loadTranslations after) (pmsFnv1a [0xA4, 0xA2]) =
        some ⟨CString.bytesOf "A", -1, -1⟩ ∧
      ¬ KeepsOld asciiLower (oneString paruRow) paruKeyEn widthFile after := by
  have read : (cmdBuild asciiLower (fun _ => []) (oneString paruRow) (some paruKeyEn)
      (some widthFile)).map (fun after =>
        Dict.get? (loadTranslations after) (pmsFnv1a [0xA4, 0xA2])) =
          some (some ⟨CString.bytesOf "A", -1, -1⟩) := by decide +kernel
  obtain ⟨after, written, new⟩ := Option.map_eq_some_iff.mp read
  have old : Dict.get? (loadTranslations widthFile) (pmsFnv1a [0xA4, 0xA2]) =
      some ⟨CString.bytesOf "A", -1, 8⟩ := by decide +kernel
  have notReproduced : NotReproduced asciiLower (oneString paruRow) paruKeyEn
      (pmsFnv1a [0xA4, 0xA2]) := by
    unfold NotReproduced
    decide +kernel
  refine ⟨after, written, old, new, ?_⟩
  intro keeps
  have same := keeps _ notReproduced
  rw [new, old] at same
  exact absurd same (by decide)

end StadiumRecomp.Translate
