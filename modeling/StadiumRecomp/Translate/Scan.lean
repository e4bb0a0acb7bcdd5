import StadiumRecomp.Translate.Loader
import StadiumRecomp.Lib.Quoted

/-!
Contract: the loader's loop on a file cut into segments by its quotes.

Owns: the loop without its pass counter, the skipping of segments that are not
`src_hex`, and what one pass does at a `src_hex` segment.

Does not own: what writes such a file.
-/

set_option autoImplicit false

namespace StadiumRecomp.Translate

open StadiumRecomp.Lib
open StadiumRecomp.Lib.Quoted

/-! ## Strings -/

/-- A string without quotes and escapes is read as it stands. -/
theorem readQuoted_plain {word : Bytes}
    (plain : ∀ byte ∈ word, byte ≠ quote ∧ byte ≠ backslash) (rest : Bytes) :
    readQuoted (word ++ quote :: rest) = (word, rest) := by
  induction word with
  | nil => exact readQuoted_quote rest
  | cons byte word inductionHypothesis =>
      obtain ⟨notQuote, notBackslash⟩ := plain byte List.mem_cons_self
      have tail := inductionHypothesis
        (fun other member => plain other (List.mem_cons_of_mem _ member))
      rw [List.cons_append, readQuoted_byte notQuote notBackslash, tail]

/-! ## The loop -/

theorem length_srcToken : srcToken.length = 9 := by decide

/-- Passes beyond the length of the data change nothing. -/
theorem loadEntriesWithin_eq {passes : Nat} {data : Bytes} (enough : data.length ≤ passes) :
    loadEntriesWithin passes data = loadEntries data := by
  induction passes using Nat.strong_induction_on generalizing data with
  | _ passes inductionHypothesis =>
      cases passes with
      | zero =>
          have empty : data = [] := List.length_eq_zero_iff.mp (by omega)
          subst empty
          rfl
      | succ passes =>
          unfold loadEntries
          cases data with
          | nil => rfl
          | cons head rest =>
              rw [List.length_cons] at enough ⊢
              rw [loadEntriesWithin, loadEntriesWithin]
              cases Search.indexOf? srcToken (head :: rest) with
              | none => rfl
              | some position =>
                  simp only
                  have shorter : ∀ count, (((head :: rest).drop
                      (position + srcToken.length)).drop count).length ≤ rest.length := by
                    intro count
                    rw [List.length_drop, List.length_drop, length_srcToken, List.length_cons]
                    omega
                  rw [inductionHypothesis passes (by omega) (by
                      have bound := shorter (entryEnd ((head :: rest).drop
                        (position + srcToken.length)))
                      omega),
                    inductionHypothesis rest.length (by omega) (shorter _)]

theorem loadEntries_of_none {data : Bytes} (absent : Search.indexOf? srcToken data = none) :
    loadEntries data = [] := by
  unfold loadEntries
  cases data with
  | nil => rfl
  | cons head rest => rw [List.length_cons, loadEntriesWithin, absent]

theorem loadEntries_of_some {data : Bytes} {position : Nat}
    (found : Search.indexOf? srcToken data = some position) :
    loadEntries data =
      (loadEntry (data.drop (position + 9)) (entryEnd (data.drop (position + 9)))).toList ++
        loadEntries ((data.drop (position + 9)).drop (entryEnd (data.drop (position + 9)))) := by
  cases data with
  | nil => cases found
  | cons head rest =>
      have unfolded : loadEntries (head :: rest) =
          loadEntriesWithin (rest.length + 1) (head :: rest) := rfl
      rw [unfolded, loadEntriesWithin, found]
      simp only [length_srcToken]
      rw [loadEntriesWithin_eq]
      rw [List.length_drop, List.length_drop, List.length_cons]
      omega

/-- Data in front of the first `"src_hex"` is not read. -/
theorem loadEntries_drop {data : Bytes} {count : Nat} (before : count ≤ entryEnd data) :
    loadEntries (data.drop count) = loadEntries data := by
  unfold entryEnd at before
  cases found : Search.indexOf? srcToken data with
  | none =>
      rw [found, Option.getD_none] at before
      have absent : Search.indexOf? srcToken (data.drop count) = none := by
        rw [Search.indexOf?_eq_none_iff] at found ⊢
        exact fun later => found (later.trans (List.drop_suffix _ _).isInfix)
      rw [loadEntries_of_none found, loadEntries_of_none absent]
  | some position =>
      rw [found, Option.getD_some] at before
      obtain ⟨bound, here, noEarlier⟩ := Search.indexOf?_eq_some_iff.mp found
      have shifted : Search.indexOf? srcToken (data.drop count) = some (position - count) := by
        rw [Search.indexOf?_eq_some_iff]
        refine ⟨by rw [List.length_drop]; omega, ?_, ?_⟩
        · rw [List.drop_drop, Nat.add_sub_cancel' before]
          exact here
        · intro earlier less
          rw [List.drop_drop]
          exact noEarlier _ (by omega)
      rw [loadEntries_of_some found, loadEntries_of_some shifted, List.drop_drop,
        show count + (position - count + 9) = position + 9 by omega]

/-- At a `"src_hex"` the loop reads one entry, then goes on behind the name. -/
theorem loadEntries_srcToken (rest : Bytes) :
    loadEntries (srcToken ++ rest) =
      (loadEntry rest (entryEnd rest)).toList ++ loadEntries rest := by
  have found : Search.indexOf? srcToken (srcToken ++ rest) = some 0 :=
    Search.indexOf?_of_prefix (List.prefix_append _ _)
  have behind : (srcToken ++ rest).drop (0 + 9) = rest := by
    rw [Nat.zero_add, ← length_srcToken, List.drop_left]
  rw [loadEntries_of_some found, behind, loadEntries_drop le_rfl]

/-! ## Segments -/

def srcWord : Bytes := CString.bytesOf "src_hex"
def targetWord : Bytes := CString.bytesOf "target"

theorem srcToken_eq : srcToken = token quote srcWord := rfl
theorem targetToken_eq : targetToken = token quote targetWord := rfl

theorem srcWord_free : quote ∉ srcWord := by decide
theorem targetWord_free : quote ∉ targetWord := by decide

/-- Segments that are not `src_hex` are skipped, as is the front. -/
theorem loadEntries_skip {front other : Bytes} {skipped segments : List Bytes}
    (frontFree : quote ∉ front) (otherFree : quote ∉ other) (free : Free quote skipped)
    (absent : srcWord ∉ skipped) :
    loadEntries (front ++ quoted quote (skipped ++ segments)) =
      loadEntries (other ++ quoted quote segments) := by
  have noToken : ∀ {text : Bytes}, quote ∉ text → Search.indexOf? srcToken text = none :=
    fun textFree => indexOf?_quote_none textFree _
  cases segments with
  | nil =>
      rw [List.append_nil, quoted_nil, List.append_nil, loadEntries_of_none (noToken otherFree)]
      apply loadEntries_of_none
      induction skipped using List.reverseRecOn with
      | nil =>
          rw [quoted_nil, List.append_nil]
          exact noToken frontFree
      | append_singleton initial last _ =>
          obtain ⟨initialFree, lastFree⟩ := free_append.mp free
          have last := indexOf?_quoted_last srcWord_free frontFree initialFree
            (fun member => absent (List.mem_append_left _ member))
            (lastFree last List.mem_cons_self)
          rw [quoted_append, ← List.append_assoc, quoted_cons, quoted_nil, List.append_nil,
            srcToken_eq]
          exact last
  | cons segment segments =>
      have skip : ∀ {text : Bytes} {words : List Bytes}, quote ∉ text → Free quote words →
          srcWord ∉ words →
          loadEntries (text ++ quoted quote (words ++ segment :: segments)) =
            loadEntries (quote :: (segment ++ quoted quote segments)) := by
        intro text words textFree wordsFree wordsAbsent
        have found := indexOf?_quoted_skip srcWord_free textFree wordsFree wordsAbsent
          (segment ++ quoted quote segments)
        have shape : text ++ quoted quote (words ++ segment :: segments) =
            text ++ quoted quote words ++ quote :: (segment ++ quoted quote segments) := by
          simp [quoted_append, quoted_cons]
        have behind : (text ++ quoted quote words ++
            quote :: (segment ++ quoted quote segments)).drop
              (text ++ quoted quote words).length =
                quote :: (segment ++ quoted quote segments) := List.drop_left
        rw [shape]
        conv_rhs => rw [← behind]
        rw [loadEntries_drop]
        unfold entryEnd
        rw [srcToken_eq, found]
        cases Search.indexOf? (token quote srcWord)
          (quote :: (segment ++ quoted quote segments)) with
        | none => simp
        | some position => simp
      rw [skip frontFree free absent]
      have noWord : srcWord ∉ ([] : List Bytes) := by simp
      have direct := skip otherFree (fun _ impossible => by cases impossible) noWord
      rw [List.nil_append] at direct
      exact direct.symm

/-- At a `src_hex` segment that a quote follows, one entry is read. -/
theorem loadEntries_word {front segment : Bytes} {segments : List Bytes}
    (frontFree : quote ∉ front) :
    loadEntries (front ++ quoted quote (srcWord :: segment :: segments)) =
      (loadEntry (segment ++ quoted quote segments)
        (entryEnd (segment ++ quoted quote segments))).toList ++
      loadEntries (segment ++ quoted quote segments) := by
  have noWord : srcWord ∉ ([] : List Bytes) := by simp
  have start : loadEntries (front ++ quoted quote (srcWord :: segment :: segments)) =
      loadEntries ([] ++ quoted quote (srcWord :: segment :: segments)) :=
    loadEntries_skip frontFree (by simp) (fun _ impossible => by cases impossible) noWord
  have shape : [] ++ quoted quote (srcWord :: segment :: segments) =
      srcToken ++ (segment ++ quoted quote segments) := by
    simp [quoted_cons, srcToken_eq, token]
  rw [start, shape, loadEntries_srcToken]

/-- An entry whose first string is no source string is not loaded. -/
theorem loadEntry_of_not_hex {front word : Bytes} {rest : Bytes} (stop : Nat)
    (frontFree : quote ∉ front) (plain : ∀ byte ∈ word, byte ≠ quote ∧ byte ≠ backslash)
    (notHex : hexBytes word = []) :
    loadEntry (front ++ quote :: (word ++ quote :: rest)) stop = none := by
  have read : readQuoted (word ++ quote :: rest) = (word, rest) := readQuoted_plain plain rest
  unfold loadEntry
  rw [indexOf?_quote frontFree]
  simp only [List.drop_left]
  split
  next => rfl
  next =>
    simp only [jsonReadString, if_true, read]
    rw [if_neg (by simp [notHex])]

end StadiumRecomp.Translate
