import StadiumRecomp.Translate.Scan

/-!
Contract: which entries of `translations.json` the loader reads from their own region.

Owns: the passes of the loading loop with the region each one starts in, what a pass
reads of its region and of what follows, and the regions for which that is the region
alone.

Does not own: the table the stored entries make.
-/

set_option autoImplicit false

namespace StadiumRecomp.Translate

open StadiumRecomp.Lib
open StadiumRecomp.Lib.Quoted

/-! ## Passes -/

/-- One pass of the loop: the text from behind a `"src_hex"` to the next one, and what
is stored for it. -/
structure Pass where
  region : Bytes
  stored : Option (UInt64 × XlateVal)

/-- The passes of the loop over a text, up to its end. -/
inductive Loads : Bytes → List Pass → Prop
  | done {data : Bytes} : Search.indexOf? srcToken data = none → Loads data []
  | pass {data entry : Bytes} {position : Nat} {passes : List Pass} :
      Search.indexOf? srcToken data = some position →
      entry = data.drop (position + srcToken.length) →
      Loads (entry.drop (entryEnd entry)) passes →
      Loads data (⟨entry.take (entryEnd entry), loadEntry entry (entryEnd entry)⟩ :: passes)

/-- The loop ends on every text, with the assignments of its passes. -/
theorem exists_loads (data : Bytes) :
    ∃ passes, Loads data passes ∧ loadEntries data = passes.filterMap Pass.stored := by
  induction length : data.length using Nat.strong_induction_on generalizing data with
  | _ count inductionHypothesis =>
      cases found : Search.indexOf? srcToken data with
      | none => exact ⟨[], .done found, loadEntries_of_none found⟩
      | some position =>
          have inside := Search.add_length_le_of_indexOf? found
          rw [length_srcToken] at inside
          obtain ⟨passes, loads, stored⟩ := inductionHypothesis
            ((data.drop (position + 9)).drop (entryEnd (data.drop (position + 9)))).length
            (by rw [List.length_drop, List.length_drop]; omega) _ rfl
          refine ⟨_, .pass found rfl loads, ?_⟩
          rw [loadEntries_of_some found, stored, length_srcToken]
          cases entry : loadEntry (data.drop (position + 9))
            (entryEnd (data.drop (position + 9))) <;> simp

theorem Loads.unique {data : Bytes} {passes others : List Pass} (loads : Loads data passes)
    (again : Loads data others) : passes = others := by
  induction loads generalizing others with
  | done absent =>
      cases again with
      | done => rfl
      | pass found => rw [absent] at found; cases found
  | pass found isEntry _ inductionHypothesis =>
      cases again with
      | done absent => rw [absent] at found; cases found
      | pass foundAgain isEntryAgain loadsAgain =>
          rw [found] at foundAgain
          cases foundAgain
          subst isEntry isEntryAgain
          rw [inductionHypothesis loadsAgain]

/-- What may follow a region: the end of the text, or the next `"src_hex"`, unless the
region ends in what would make an earlier one of it. -/
def MayFollow (region after : Bytes) : Prop :=
  Search.indexOf? srcToken region = none ∧
    (after = [] ∨ (srcToken <+: after ∧ ¬ quote :: srcWord <:+ region))

theorem MayFollow.next {region after : Bytes} (follows : MayFollow region after) :
    after = [] ∨ after.head? = some quote := by
  rcases follows.2 with empty | ⟨⟨rest, rfl⟩, _⟩
  · exact Or.inl empty
  · exact Or.inr rfl

theorem entryEnd_of_mayFollow {region after : Bytes} (follows : MayFollow region after) :
    entryEnd (region ++ after) = region.length := by
  unfold entryEnd
  obtain ⟨absent, rfl | ⟨⟨rest, rfl⟩, noEnd⟩⟩ := follows
  · rw [List.append_nil, absent]
    rfl
  · rw [srcToken_eq] at absent ⊢
    rw [indexOf?_token_next srcWord_free absent noEnd]
    rfl

/-- A text is a region and what follows it. -/
theorem mayFollow_entryEnd (entry : Bytes) :
    MayFollow (entry.take (entryEnd entry)) (entry.drop (entryEnd entry)) := by
  unfold entryEnd
  cases found : Search.indexOf? srcToken entry with
  | none =>
      rw [Option.getD_none, List.take_length, List.drop_length]
      exact ⟨found, Or.inl rfl⟩
  | some position =>
      rw [Option.getD_some]
      have inside := Search.add_length_le_of_indexOf? found
      obtain ⟨bound, stands, noEarlier⟩ := Search.indexOf?_eq_some_iff.mp found
      rw [length_srcToken] at inside
      have absent : Search.indexOf? srcToken (entry.take position) = none := by
        cases early : Search.indexOf? srcToken (entry.take position) with
        | none => rfl
        | some earlier =>
            have whole := Search.indexOf?_append early (entry.drop position)
            have short := Search.add_length_le_of_indexOf? early
            rw [List.take_append_drop, found] at whole
            cases whole
            rw [List.length_take, length_srcToken] at short
            omega
      refine ⟨absent, Or.inr ⟨stands, ?_⟩⟩
      intro ⟨front, ends⟩
      obtain ⟨rest, tail⟩ := stands
      have closed := indexOf?_token_closed srcWord_free (by rw [ends]; exact absent)
        (srcWord ++ quote :: rest)
      have whole : front ++ quote :: srcWord ++ quote :: (srcWord ++ quote :: rest) = entry := by
        rw [ends]
        conv_rhs => rw [← List.take_append_drop position entry, ← tail, srcToken_eq]
        simp [token]
      rw [whole, ← srcToken_eq, found] at closed
      cases closed
      have lengths := congrArg List.length ends
      rw [List.length_append, List.length_take, List.length_cons] at lengths
      omega

/-- Every pass reads a region and what follows it. -/
theorem Loads.follows {data : Bytes} {passes : List Pass} (loads : Loads data passes) :
    ∀ pass ∈ passes, ∃ after, MayFollow pass.region after ∧
      pass.stored = loadEntry (pass.region ++ after) pass.region.length := by
  induction loads with
  | done => simp
  | @pass data entry position passes found isEntry _ inductionHypothesis =>
      intro pass member
      rcases List.mem_cons.mp member with rfl | later
      · refine ⟨entry.drop (entryEnd entry), mayFollow_entryEnd entry, ?_⟩
        have whole := entryEnd_of_mayFollow (mayFollow_entryEnd entry)
        rw [List.take_append_drop] at whole
        rw [List.take_append_drop, ← whole]
      · exact inductionHypothesis pass later

/-- Every region and what may follow it make a pass. -/
theorem exists_pass {region after : Bytes} (follows : MayFollow region after) :
    ∃ passes, Loads (srcToken ++ (region ++ after)) passes ∧
      ⟨region, loadEntry (region ++ after) region.length⟩ ∈ passes := by
  obtain ⟨passes, loads, _⟩ := exists_loads ((region ++ after).drop (entryEnd (region ++ after)))
  have found : Search.indexOf? srcToken (srcToken ++ (region ++ after)) = some 0 :=
    Search.indexOf?_of_prefix (List.prefix_append _ _)
  have behind : region ++ after = (srcToken ++ (region ++ after)).drop (0 + srcToken.length) := by
    rw [Nat.zero_add, List.drop_left]
  refine ⟨_, .pass found behind loads, ?_⟩
  rw [entryEnd_of_mayFollow follows, List.take_left]
  exact List.mem_cons_self

/-! ## Strings cut by the end of a region -/

/-- How a string that opened in a region ends there: closed, still open, or in the middle
of an escape. -/
inductive StringEnd where
  | closes (content rest : Bytes)
  | runsOn (content : Bytes)
  | dangles (content : Bytes)
deriving DecidableEq

def StringEnd.push (byte : UInt8) : StringEnd → StringEnd
  | .closes content rest => .closes (byte :: content) rest
  | .runsOn content => .runsOn (byte :: content)
  | .dangles content => .dangles (byte :: content)

def scanString : Bytes → StringEnd
  | [] => .runsOn []
  | byte :: rest =>
      if byte = quote then .closes [] rest
      else if byte = backslash then
        match rest with
        | [] => .dangles []
        | escaped :: rest => (scanString rest).push (unescape escaped)
      else (scanString rest).push byte

/-- What the reader makes of a region's string when `after` follows the region. -/
def StringEnd.read (after : Bytes) : StringEnd → Bytes × Bytes
  | .closes content rest => (content, rest ++ after)
  | .runsOn content => (content ++ (readQuoted after).1, (readQuoted after).2)
  | .dangles content =>
      (content ++ (readQuoted (backslash :: after)).1, (readQuoted (backslash :: after)).2)

theorem StringEnd.read_push (after : Bytes) (byte : UInt8) (ending : StringEnd) :
    (ending.push byte).read after = (byte :: (ending.read after).1, (ending.read after).2) := by
  cases ending <;> rfl

theorem readQuoted_append (text after : Bytes) :
    readQuoted (text ++ after) = (scanString text).read after := by
  fun_induction scanString text with
  | case1 => rfl
  | case2 rest => exact readQuoted_quote (rest ++ after)
  | case3 => rfl
  | case4 escaped rest _ inductionHypothesis =>
      rw [StringEnd.read_push, ← inductionHypothesis]
      exact readQuoted_escape escaped (rest ++ after)
  | case5 byte rest notQuote notBackslash inductionHypothesis =>
      rw [StringEnd.read_push, ← inductionHypothesis]
      exact readQuoted_byte notQuote notBackslash (rest ++ after)

theorem readQuoted_suffix (text : Bytes) : (readQuoted text).2 <:+ text := by
  fun_induction readQuoted text with
  | case1 => exact List.suffix_rfl
  | case2 rest => exact List.suffix_cons _ _
  | case3 => exact List.nil_suffix
  | case4 escaped rest content after read _ inductionHypothesis =>
      rw [read] at inductionHypothesis
      exact inductionHypothesis.trans ((List.suffix_cons _ _).trans (List.suffix_cons _ _))
  | case5 byte rest _ _ content after read inductionHypothesis =>
      rw [read] at inductionHypothesis
      exact inductionHypothesis.trans (List.suffix_cons _ _)

theorem suffix_of_closes {text content rest : Bytes}
    (closes : scanString text = .closes content rest) : rest <:+ text := by
  have read := readQuoted_append text []
  have isSuffix := readQuoted_suffix text
  rw [closes, List.append_nil] at read
  rw [read] at isSuffix
  simpa [StringEnd.read] using isSuffix

theorem StringEnd.push_eq_dangles {byte : UInt8} {ending : StringEnd} {content : Bytes}
    (dangles : ending.push byte = .dangles content) : ∃ tail, ending = .dangles tail := by
  cases ending with
  | closes => cases dangles
  | runsOn => cases dangles
  | dangles tail => exact ⟨tail, rfl⟩

theorem suffix_of_dangles {text content : Bytes} (dangles : scanString text = .dangles content) :
    [backslash] <:+ text := by
  fun_induction scanString text generalizing content with
  | case1 => cases dangles
  | case2 => cases dangles
  | case3 => exact List.suffix_rfl
  | case4 escaped rest _ inductionHypothesis =>
      obtain ⟨tail, inner⟩ := StringEnd.push_eq_dangles dangles
      exact (inductionHypothesis inner).trans
        ((List.suffix_cons _ _).trans (List.suffix_cons _ _))
  | case5 byte rest _ _ inductionHypothesis =>
      obtain ⟨tail, inner⟩ := StringEnd.push_eq_dangles dangles
      exact (inductionHypothesis inner).trans (List.suffix_cons _ _)

/-- A string that is not closed in its region is read beyond the region. -/
theorem length_of_not_closes {text : Bytes}
    (open' : ∀ content rest, scanString text ≠ .closes content rest) (after : Bytes) :
    (readQuoted (text ++ after)).2.length ≤ after.length := by
  rw [readQuoted_append]
  cases ending : scanString text with
  | closes content rest => exact absurd ending (open' content rest)
  | runsOn content => exact (readQuoted_suffix after).length_le
  | dangles content =>
      cases after with
      | nil => exact le_rfl
      | cons escaped rest =>
          simp only [StringEnd.read, readQuoted_escape, List.length_cons]
          exact Nat.le_succ_of_le (readQuoted_suffix rest).length_le

/-- The first string of a text. -/
def firstString (text : Bytes) : Bytes :=
  match Search.indexOf? [quote] text with
  | none => []
  | some opening => (jsonReadString (text.drop opening)).1

theorem jsonReadString_drop {text : Bytes} {opening : Nat}
    (found : Search.indexOf? [quote] text = some opening) :
    jsonReadString (text.drop opening) = readQuoted (text.drop (opening + 1)) := by
  obtain ⟨_, ⟨rest, stands⟩, _⟩ := Search.indexOf?_eq_some_iff.mp found
  rw [← List.drop_drop, ← stands]
  rfl

theorem firstString_append {text : Bytes} {opening : Nat}
    (found : Search.indexOf? [quote] text = some opening) (after : Bytes) :
    firstString (text ++ after) = ((scanString (text.drop (opening + 1))).read after).1 := by
  have inside := Search.add_length_le_of_indexOf? found
  have whole := Search.indexOf?_append found after
  rw [List.length_singleton] at inside
  unfold firstString
  rw [whole]
  simp only
  rw [jsonReadString_drop whole, List.drop_append_of_le_length inside, readQuoted_append]

theorem not_mem_of_indexOf? {byte : UInt8} {text : Bytes}
    (absent : Search.indexOf? [byte] text = none) : byte ∉ text := by
  intro member
  exact Search.indexOf?_eq_none_iff.mp absent ((List.singleton_infix_iff byte text).mpr member)

theorem firstString_append_none {text : Bytes} (absent : Search.indexOf? [quote] text = none)
    (after : Bytes) : firstString (text ++ after) = firstString after := by
  have free := not_mem_of_indexOf? absent
  unfold firstString
  rw [indexOf?_append_free free]
  cases Search.indexOf? [quote] after with
  | none => rfl
  | some opening => simp [List.drop_append, List.drop_eq_nil_of_le]

/-! ## Numbers -/

/-- An integer field is read from its region alone. -/
theorem jsonReadInt_append {key : String} (keyFree : quote ∉ CString.bytesOf key)
    (region : Bytes) {after : Bytes} (next : after = [] ∨ after.head? = some quote)
    (default : Int) :
    jsonReadInt (region ++ after) key region.length default =
      jsonReadInt region key region.length default := by
  have nameLength : (quotedName key).length = (CString.bytesOf key).length + 2 := by
    simp [quotedName]
  simp only [jsonReadInt]
  cases found : Search.indexOf? (quotedName key) region with
  | none =>
      simp only
      cases late : Search.indexOf? (quotedName key) (region ++ after) with
      | none => rfl
      | some position =>
          simp only
          rcases le_of_indexOf?_token_append keyFree found next late with behind | ⟨ending, _⟩
          · rw [if_pos behind]
          · -- The name ends with the quote that follows the region.
            split
            · rfl
            · cases Search.indexOf? [0x3A] ((region ++ after).drop
                (position + (quotedName key).length)) with
              | none => rfl
              | some colon =>
                  simp only
                  rw [if_pos (by omega)]
  | some position =>
      have inside := Search.add_length_le_of_indexOf? found
      rw [Search.indexOf?_append found]
      simp only
      rw [if_neg (by omega), if_neg (by omega), List.drop_append_of_le_length inside]
      cases colonFound : Search.indexOf? [0x3A]
        (region.drop (position + (quotedName key).length)) with
      | none =>
          have colonFree := not_mem_of_indexOf? colonFound
          rw [indexOf?_append_free colonFree]
          cases Search.indexOf? [0x3A] after with
          | none => rfl
          | some colon =>
              simp only [Option.map_some, List.length_drop]
              rw [if_pos (by omega)]
      | some colon =>
          rw [Search.indexOf?_append colonFound, List.take_left, List.take_length]

/-! ## Regions -/

/-- How the value of the first `"target"` ends in its region. A `"target` at the very end
is completed by the quote that follows, and without a quote the value lies outside. -/
inductive TargetEnd where
  | absent
  | cutName
  | noValue
  | value (ending : StringEnd)

def scanTarget (behind : Bytes) : TargetEnd :=
  match Search.indexOf? targetToken behind with
  | none => if (quote :: targetWord).isSuffixOf behind then .cutName else .absent
  | some position =>
      let behind := behind.drop (position + targetToken.length)
      match Search.indexOf? [quote] behind with
      | none => .noValue
      | some opening => .value (scanString (behind.drop (opening + 1)))

/-- The source bytes of a region and what follows its source string, when that closes in
the region and is hexadecimal. -/
def ownSource (region : Bytes) : Option (Bytes × Bytes) :=
  match Search.indexOf? [quote] region with
  | none => none
  | some opening =>
      match scanString (region.drop (opening + 1)) with
      | .closes hex behind => if hexBytes hex = [] then none else some (hexBytes hex, behind)
      | _ => none

/-- The English the loader reads when `after` follows the region. -/
def TargetEnd.read (after : Bytes) : TargetEnd → Bytes
  | .absent => []
  | .cutName => firstString after.tail
  | .noValue => firstString after
  | .value ending => (ending.read after).1

theorem readTarget_eq (data : Bytes) (stop : Nat) :
    readTarget data stop =
      match Search.indexOf? targetToken data with
      | none => []
      | some position =>
          if stop ≤ position then [] else firstString (data.drop (position + 8)) := rfl

theorem readTarget_append (behind : Bytes) {after : Bytes}
    (next : after = [] ∨ after.head? = some quote) :
    readTarget (behind ++ after) behind.length = (scanTarget behind).read after := by
  rw [readTarget_eq, scanTarget]
  cases found : Search.indexOf? targetToken behind with
  | some position =>
      have inside : position + 8 ≤ behind.length := Search.add_length_le_of_indexOf? found
      rw [Search.indexOf?_append found]
      simp only
      rw [if_neg (by omega), List.drop_append_of_le_length inside]
      cases opens : Search.indexOf? [quote] (behind.drop (position + targetToken.length)) with
      | none => exact firstString_append_none opens after
      | some opening => exact firstString_append opens after
  | none =>
      simp only
      by_cases cut : quote :: targetWord <:+ behind
      · rw [if_pos (List.isSuffixOf_iff_suffix.mpr cut)]
        obtain ⟨front, rfl⟩ := cut
        rcases next with rfl | quoteNext
        · rw [List.append_nil, found]
          rfl
        · obtain ⟨rest, rfl⟩ := List.head?_eq_some_iff.mp quoteNext
          have closed := indexOf?_token_closed targetWord_free found rest
          rw [targetToken_eq, closed]
          have length : (quote :: targetWord).length = 7 := by decide
          simp only [List.length_append, length]
          rw [if_neg (by omega), List.drop_append, List.drop_eq_nil_of_le
            (by rw [List.length_append, length]; omega), List.length_append, length]
          simp only [List.nil_append, TargetEnd.read, List.tail_cons]
          rw [show front.length + 8 - (front.length + 7) = 1 by omega]
          rfl
      · rw [if_neg (fun isSuffix => cut (List.isSuffixOf_iff_suffix.mp isSuffix))]
        cases late : Search.indexOf? targetToken (behind ++ after) with
        | none => rfl
        | some position =>
            rcases le_of_indexOf?_token_append targetWord_free found next late with
              beyond | ⟨_, ends⟩
            · exact if_pos beyond
            · exact absurd ends cut

/-- An entry without source bytes of its own stores nothing, whatever follows. -/
theorem loadEntry_of_no_source {region after : Bytes} (noSource : ownSource region = none) :
    loadEntry (region ++ after) region.length = none := by
  unfold loadEntry
  unfold ownSource at noSource
  cases found : Search.indexOf? [quote] region with
  | none =>
      rw [indexOf?_append_free (not_mem_of_indexOf? found)]
      cases Search.indexOf? [quote] after with
      | none => rfl
      | some opening => exact if_pos (Nat.le_add_right _ _)
  | some opening =>
      have inside := Search.add_length_le_of_indexOf? found
      have whole := Search.indexOf?_append found after
      rw [List.length_singleton] at inside
      rw [found] at noSource
      simp only at noSource
      rw [whole]
      simp only
      rw [if_neg (by omega), jsonReadString_drop whole, List.drop_append_of_le_length inside]
      cases ending : scanString (region.drop (opening + 1)) with
      | closes hex behind =>
          rw [ending] at noSource
          have noBytes : hexBytes hex = [] := by
            by_contra bytes
            simp [bytes] at noSource
          rw [readQuoted_append, ending]
          simp [StringEnd.read, noBytes]
      | runsOn content =>
          have short : (readQuoted (region.drop (opening + 1) ++ after)).2.length ≤ after.length :=
            length_of_not_closes (by rw [ending]; simp) after
          rw [List.length_append, Nat.sub_eq_zero_of_le (by omega), readTarget_eq]
          cases Search.indexOf? targetToken _ <;> simp
      | dangles content =>
          have short : (readQuoted (region.drop (opening + 1) ++ after)).2.length ≤ after.length :=
            length_of_not_closes (by rw [ending]; simp) after
          rw [List.length_append, Nat.sub_eq_zero_of_le (by omega), readTarget_eq]
          cases Search.indexOf? targetToken _ <;> simp

/-- What is stored with a given English. -/
def storedWith (bytes behind target : Bytes) : Option (UInt64 × XlateVal) :=
  if target = [] then none
  else some (pmsFnv1a bytes, ⟨target, jsonReadInt behind "orig_w" behind.length (-1),
    jsonReadInt behind "fit_w" behind.length (-1)⟩)

/-- Only the English of an entry can come from beyond its region. -/
theorem loadEntry_of_source {region bytes behind after : Bytes}
    (source : ownSource region = some (bytes, behind))
    (next : after = [] ∨ after.head? = some quote) :
    loadEntry (region ++ after) region.length =
      storedWith bytes behind ((scanTarget behind).read after) := by
  unfold loadEntry
  unfold ownSource at source
  cases found : Search.indexOf? [quote] region with
  | none => rw [found] at source; cases source
  | some opening =>
      have inside := Search.add_length_le_of_indexOf? found
      have whole := Search.indexOf?_append found after
      rw [List.length_singleton] at inside
      rw [found] at source
      simp only at source
      rw [whole]
      simp only
      rw [if_neg (by omega), jsonReadString_drop whole, List.drop_append_of_le_length inside]
      cases ending : scanString (region.drop (opening + 1)) with
      | runsOn content => rw [ending] at source; cases source
      | dangles content => rw [ending] at source; cases source
      | closes hex rest =>
          rw [ending] at source
          simp only at source
          split at source
          next => cases source
          next hasBytes =>
            cases source
            have short := (suffix_of_closes ending).length_le
            rw [List.length_drop] at short
            have stop : region.length - ((region ++ after).length - (behind ++ after).length) =
                behind.length := by
              rw [List.length_append, List.length_append]
              omega
            have origFree : quote ∉ CString.bytesOf "orig_w" := by decide
            have fitFree : quote ∉ CString.bytesOf "fit_w" := by decide
            rw [readQuoted_append, ending, storedWith]
            simp only [StringEnd.read, stop, readTarget_append behind next,
              jsonReadInt_append origFree behind next, jsonReadInt_append fitFree behind next]
            by_cases noTarget : (scanTarget behind).read after = []
            · rw [if_pos noTarget, if_neg (fun both => both.2 noTarget)]
            · rw [if_neg noTarget, if_pos ⟨hasBytes, noTarget⟩]

/-! ## Entries that are read from their own region -/

/-- `"target"`, a colon and a string that closes in the region. -/
def isOwnTarget (text : Bytes) : Bool :=
  let isBlank (byte : UInt8) : Bool := byte == 0x20 || byte == 0x09 || byte == 0x0A || byte == 0x0D
  match Search.dropPrefix? targetToken text with
  | none => false
  | some rest =>
      match rest.dropWhile isBlank with
      | 0x3A :: value =>
          match value.dropWhile isBlank with
          | 0x22 :: content =>
              match scanString content with
              | .closes _ _ => true
              | _ => false
          | _ => false
      | _ => false

/-- The region has a `"target"` with a string for its value. -/
def hasOwnTarget (region : Bytes) : Bool := region.tails.any isOwnTarget

/-- What is stored for a region is the same in every text, and nothing without a
`"target"` of its own. -/
structure ReadsOwnRegion (region : Bytes) : Prop where
  independent : ∀ {data other : Bytes} {passes others : List Pass}
    {stored stored' : Option (UInt64 × XlateVal)}, Loads data passes → Loads other others →
      ⟨region, stored⟩ ∈ passes → ⟨region, stored'⟩ ∈ others → stored = stored'
  needsTarget : hasOwnTarget region = false → ∀ {data : Bytes} {passes : List Pass}
    {stored : Option (UInt64 × XlateVal)}, Loads data passes →
      ⟨region, stored⟩ ∈ passes → stored = none

/-- The region stores nothing, or the string behind its first `"target"` opens in it, does
not end it with half an escape, and is empty or not the only string of a `"target"`. -/
def Contained (region : Bytes) : Prop :=
  match ownSource region with
  | none => True
  | some (_, behind) =>
      match scanTarget behind with
      | .absent => True
      | .cutName => False
      | .noValue => quote :: srcWord <:+ region
      | .value (.closes content _) => content = [] ∨ hasOwnTarget region = true
      | .value (.runsOn content) => content = [] ∨ hasOwnTarget region = true
      | .value (.dangles _) => False

section Region

variable {region : Bytes}

theorem ReadsOwnRegion.iff_follows (isRegion : Search.indexOf? srcToken region = none) :
    ReadsOwnRegion region ↔
      (∀ after, MayFollow region after → loadEntry (region ++ after) region.length =
        loadEntry (region ++ []) region.length) ∧
      (hasOwnTarget region = false →
        ∀ after, MayFollow region after → loadEntry (region ++ after) region.length = none) := by
  have alone : MayFollow region [] := ⟨isRegion, Or.inl rfl⟩
  constructor
  · intro own
    constructor
    · intro after follows
      obtain ⟨_, loads, member⟩ := exists_pass follows
      obtain ⟨_, loadsAlone, memberAlone⟩ := exists_pass alone
      exact own.independent loads loadsAlone member memberAlone
    · intro noTarget after follows
      obtain ⟨_, loads, member⟩ := exists_pass follows
      exact own.needsTarget noTarget loads member
  · intro ⟨same, needsTarget⟩
    constructor
    · intro data other passes others stored stored' loads loadsOther member memberOther
      obtain ⟨after, follows, read⟩ := loads.follows _ member
      obtain ⟨after', follows', read'⟩ := loadsOther.follows _ memberOther
      exact read.trans ((same after follows).trans ((same after' follows').symm.trans read'.symm))
    · intro noTarget data passes stored loads member
      obtain ⟨after, follows, read⟩ := loads.follows _ member
      exact read.trans (needsTarget noTarget after follows)

theorem storedWith_eq_iff {bytes behind target target' : Bytes} :
    storedWith bytes behind target = storedWith bytes behind target' ↔ target = target' := by
  unfold storedWith
  by_cases empty : target = [] <;> by_cases empty' : target' = []
  · simp [empty, empty']
  · simp [empty, empty', Ne.symm empty']
  · simp [empty, empty']
  · simp [empty, empty']

theorem storedWith_eq_none_iff {bytes behind target : Bytes} :
    storedWith bytes behind target = none ↔ target = [] := by
  unfold storedWith
  by_cases empty : target = [] <;> simp [empty]

/-- A target is read the same whatever follows the region, and is empty if the region has
none of its own. -/
def ReadsAlike (region : Bytes) (target : TargetEnd) : Prop :=
  (∀ after, MayFollow region after → target.read after = target.read []) ∧
    (hasOwnTarget region = false → ∀ after, MayFollow region after → target.read after = [])

/-- With a source of its own, a region is as independent as its English. -/
theorem readsOwnRegion_iff_target (isRegion : Search.indexOf? srcToken region = none)
    {bytes behind : Bytes} (source : ownSource region = some (bytes, behind)) :
    ReadsOwnRegion region ↔ ReadsAlike region (scanTarget behind) := by
  rw [ReadsOwnRegion.iff_follows isRegion]
  refine and_congr ?_ ?_
  · refine forall_congr' fun after => forall_congr' fun follows => ?_
    rw [loadEntry_of_source source follows.next, loadEntry_of_source source (Or.inl rfl),
      storedWith_eq_iff]
  · refine forall_congr' fun _ => forall_congr' fun after => forall_congr' fun follows => ?_
    rw [loadEntry_of_source source follows.next, storedWith_eq_none_iff]

theorem suffix_of_ownSource {bytes behind : Bytes}
    (source : ownSource region = some (bytes, behind)) : behind <:+ region := by
  unfold ownSource at source
  cases found : Search.indexOf? [quote] region with
  | none => rw [found] at source; cases source
  | some opening =>
      rw [found] at source
      simp only at source
      cases ending : scanString (region.drop (opening + 1)) with
      | runsOn content => rw [ending] at source; cases source
      | dangles content => rw [ending] at source; cases source
      | closes hex rest =>
          rw [ending] at source
          simp only at source
          split at source
          next => cases source
          next =>
            cases source
            exact (suffix_of_closes ending).trans (List.drop_suffix _ _)

theorem suffix_of_cutName {behind : Bytes} (cut : scanTarget behind = .cutName) :
    quote :: targetWord <:+ behind := by
  simp only [scanTarget] at cut
  split at cut
  next =>
    split at cut
    next isSuffix => exact List.isSuffixOf_iff_suffix.mp isSuffix
    next => cases cut
  next => split at cut <;> cases cut

theorem suffix_of_value {behind : Bytes} {ending : StringEnd}
    (value : scanTarget behind = .value ending) : ∃ text, text <:+ behind ∧
      scanString text = ending := by
  simp only [scanTarget] at value
  split at value
  next => split at value <;> cases value
  next =>
    split at value
    next => cases value
    next =>
      cases value
      exact ⟨_, (List.drop_suffix _ _).trans (List.drop_suffix _ _), rfl⟩

/-- A region that ends in other bytes may be followed by any `"src_hex"`. -/
theorem follows_srcToken (isRegion : Search.indexOf? srcToken region = none)
    {ending : Bytes} (ends : ending <:+ region) (short : ending.length ≤ 8)
    (other : ¬ ending <:+ quote :: srcWord) (rest : Bytes) :
    MayFollow region (srcToken ++ rest) := by
  refine ⟨isRegion, Or.inr ⟨List.prefix_append _ _, fun wordEnds => other ?_⟩⟩
  have length : (quote :: srcWord).length = 8 := by decide
  exact List.suffix_of_suffix_length_le ends wordEnds (by omega)

theorem readQuoted_next {after : Bytes} (next : after = [] ∨ after.head? = some quote) :
    (readQuoted after).1 = [] := by
  rcases next with rfl | quoteNext
  · rfl
  · obtain ⟨rest, rfl⟩ := List.head?_eq_some_iff.mp quoteNext
    rw [readQuoted_quote]

/-- The next `"src_hex"` completes a cut-off name. -/
theorem not_readsAlike_cutName (isRegion : Search.indexOf? srcToken region = none)
    (ends : quote :: targetWord <:+ region) : ¬ ReadsAlike region .cutName := by
  intro ⟨same, _⟩
  have follows := follows_srcToken isRegion ends (by decide) (by decide) [0x3A, quote]
  exact absurd (same _ follows) (by decide)

/-- Without a string of its own the target is the next `src_hex`, if one may follow. -/
theorem readsAlike_noValue_iff (isRegion : Search.indexOf? srcToken region = none) :
    ReadsAlike region .noValue ↔ quote :: srcWord <:+ region := by
  constructor
  · intro ⟨same, _⟩
    by_contra noEnd
    have follows : MayFollow region srcToken := ⟨isRegion, Or.inr ⟨List.prefix_rfl, noEnd⟩⟩
    exact absurd (same _ follows) (by decide)
  · intro ends
    have onlyAlone : ∀ after, MayFollow region after → after = [] := by
      intro after follows
      exact follows.2.resolve_right (fun next => next.2 ends)
    constructor
    · intro after follows
      rw [onlyAlone after follows]
    · intro _ after follows
      rw [onlyAlone after follows]
      rfl

theorem readsAlike_closes_iff (isRegion : Search.indexOf? srcToken region = none)
    (content rest : Bytes) :
    ReadsAlike region (.value (.closes content rest)) ↔
      content = [] ∨ hasOwnTarget region = true := by
  have alone : MayFollow region [] := ⟨isRegion, Or.inl rfl⟩
  simp only [ReadsAlike, TargetEnd.read, StringEnd.read, implies_true, true_and]
  rw [or_iff_not_imp_right, Bool.not_eq_true]
  exact imp_congr_right fun _ => ⟨fun all => all [] alone, fun empty _ _ => empty⟩

/-- What follows an open string starts with a quote, which closes it. -/
theorem readsAlike_runsOn_iff (isRegion : Search.indexOf? srcToken region = none)
    (content : Bytes) :
    ReadsAlike region (.value (.runsOn content)) ↔
      content = [] ∨ hasOwnTarget region = true := by
  have alone : MayFollow region [] := ⟨isRegion, Or.inl rfl⟩
  have plain : ∀ after, MayFollow region after →
      (TargetEnd.value (.runsOn content)).read after = content := by
    intro after follows
    simp only [TargetEnd.read, StringEnd.read]
    rw [readQuoted_next follows.next, List.append_nil]
  rw [or_iff_not_imp_right, Bool.not_eq_true]
  constructor
  · intro ⟨_, needsTarget⟩ noTarget
    rw [← plain [] alone]
    exact needsTarget noTarget [] alone
  · intro needsTarget
    refine ⟨fun after follows => ?_, fun noTarget after follows => ?_⟩
    · rw [plain after follows, plain [] alone]
    · rw [plain after follows]
      exact needsTarget noTarget

/-- Half an escape takes the next quote into the string. -/
theorem not_readsAlike_dangles (isRegion : Search.indexOf? srcToken region = none)
    {text content : Bytes} (ends : text <:+ region) (dangles : scanString text = .dangles content) :
    ¬ ReadsAlike region (.value (.dangles content)) := by
  intro ⟨same, _⟩
  have follows := follows_srcToken isRegion ((suffix_of_dangles dangles).trans ends)
    (by decide) (by decide) []
  have impossible := List.append_cancel_left (same _ follows)
  exact absurd impossible (by decide)

theorem readsOwnRegion_iff (isRegion : Search.indexOf? srcToken region = none) :
    ReadsOwnRegion region ↔ Contained region := by
  unfold Contained
  cases source : ownSource region with
  | none =>
      rw [ReadsOwnRegion.iff_follows isRegion]
      simp only [loadEntry_of_no_source source, implies_true, and_self]
  | some found =>
      obtain ⟨bytes, behind⟩ := found
      have isSuffix := suffix_of_ownSource source
      rw [readsOwnRegion_iff_target isRegion source]
      simp only
      cases target : scanTarget behind with
      | absent => simp [ReadsAlike, TargetEnd.read]
      | cutName =>
          simp only [iff_false]
          exact not_readsAlike_cutName isRegion ((suffix_of_cutName target).trans isSuffix)
      | noValue => exact readsAlike_noValue_iff isRegion
      | value ending =>
          cases ending with
          | closes content rest => exact readsAlike_closes_iff isRegion content rest
          | runsOn content => exact readsAlike_runsOn_iff isRegion content
          | dangles content =>
              simp only [iff_false]
              obtain ⟨text, textSuffix, dangles⟩ := suffix_of_value target
              exact not_readsAlike_dangles isRegion (textSuffix.trans isSuffix) dangles

end Region

/-- The loop ends on every text, and the regions it reads from themselves alone are the
contained ones. -/
theorem loads_readsOwnRegion_iff (data : Bytes) :
    ∃ passes, Loads data passes ∧
      loadTranslations data = Dict.writes [] (passes.filterMap Pass.stored) ∧
      ∀ pass ∈ passes, (ReadsOwnRegion pass.region ↔ Contained pass.region) := by
  obtain ⟨passes, loads, stored⟩ := exists_loads data
  refine ⟨passes, loads, congrArg (Dict.writes []) stored, ?_⟩
  intro pass member
  obtain ⟨after, follows, _⟩ := loads.follows pass member
  exact readsOwnRegion_iff follows.1

/-- An entry whose target is `null`. -/
def nullTarget : Bytes := CString.bytesOf ":\"a4a2\",\"target\":null\x7d,\x7b"

/-- At the end of the text it stores nothing, in front of another entry `src_hex`. -/
theorem nullTarget_bleeds : hasOwnTarget nullTarget = false ∧
    (∃ passes, Loads (srcToken ++ (nullTarget ++ [])) passes ∧ ⟨nullTarget, none⟩ ∈ passes) ∧
    ∃ passes, Loads (srcToken ++ (nullTarget ++ srcToken)) passes ∧
      ⟨nullTarget, some (pmsFnv1a [0xA4, 0xA2], ⟨srcWord, -1, -1⟩)⟩ ∈ passes := by
  have isRegion : Search.indexOf? srcToken nullTarget = none := by decide +kernel
  have noEnd : ¬ quote :: srcWord <:+ nullTarget := by decide +kernel
  have endFollows : MayFollow nullTarget [] := ⟨isRegion, Or.inl rfl⟩
  have nextFollows : MayFollow nullTarget srcToken := ⟨isRegion, Or.inr ⟨List.prefix_rfl, noEnd⟩⟩
  have atEnd := exists_pass endFollows
  have beforeNext := exists_pass nextFollows
  have nothing : loadEntry (nullTarget ++ []) nullTarget.length = none := by decide +kernel
  have bled : loadEntry (nullTarget ++ srcToken) nullTarget.length =
      some (pmsFnv1a [0xA4, 0xA2], ⟨srcWord, -1, -1⟩) := by decide +kernel
  rw [nothing] at atEnd
  rw [bled] at beforeNext
  exact ⟨by decide +kernel, atEnd, beforeNext⟩

end StadiumRecomp.Translate
