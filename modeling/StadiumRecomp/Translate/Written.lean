import StadiumRecomp.Translate.Pieces
import StadiumRecomp.Translate.Row

/-!
Contract: what the loader reads from a file the build tool writes.

Owns: a written row as bytes, what an entry says to the loader, and the entries of a
whole file, whatever its rows hold.

Does not own: which rows are written.
-/

set_option autoImplicit false

namespace StadiumRecomp.Translate

open StadiumRecomp.Lib
open StadiumRecomp.Lib.Quoted

/-! ## The file -/

/-- The three texts of a row. -/
structure TextEntry where
  srcHex : Text
  jp : Text
  en : Text

/-- The texts of an entry with a text in each place and a source that is written as it
stands. -/
def Entry.texts? (entry : Entry) : Option TextEntry :=
  match entry.srcHex, entry.srcJp, entry.target with
  | some source, .str (some jp), .str (some en) =>
      if '"' ∈ source ∨ '\\' ∈ source then none else some ⟨source, jp, en⟩
  | _, _, _ => none

/-- What the loader makes of an entry the tool wrote. -/
def TextEntry.reading (texts : TextEntry) : Option (UInt64 × XlateVal) :=
  rowReading (Utf8.encode texts.srcHex) (Utf8.encode texts.jp) (Utf8.encode texts.en)

/-- A row as bytes, and whatever follows it. -/
def rowBytes (source jp en : Bytes) (comma : Bool) : Bytes :=
  CString.bytesOf "  \x7b \"src_hex\": \"" ++ source ++ CString.bytesOf "\", \"src_jp\": \"" ++
    escapeBytes jp ++ CString.bytesOf "\", \"target\": \"" ++ escapeBytes en ++
    CString.bytesOf "\" \x7d" ++ (if comma then [0x2C] else []) ++ [0x0A]

theorem texts?_eq_some {entry : Entry} {texts : TextEntry} (read : entry.texts? = some texts) :
    entry.srcHex = some texts.srcHex ∧ entry.srcJp = .str (some texts.jp) ∧
      entry.target = .str (some texts.en) ∧ '"' ∉ texts.srcHex ∧ '\\' ∉ texts.srcHex := by
  unfold Entry.texts? at read
  split at read
  next source jp en isSource isJp isEn =>
    split at read
    next => cases read
    next plain =>
      cases read
      exact ⟨isSource, isJp, isEn, fun quoted => plain (Or.inl quoted),
        fun escaped => plain (Or.inr escaped)⟩
  next => cases read

theorem encode_rowText {entry : Entry} {texts : TextEntry} (read : entry.texts? = some texts)
    (comma : Bool) :
    ∃ row, rowText entry comma = some row ∧ Utf8.encode row = rowBytes (Utf8.encode texts.srcHex)
      (Utf8.encode texts.jp) (Utf8.encode texts.en) comma := by
  obtain ⟨source, jp, en, _⟩ := texts?_eq_some read
  have opening : Utf8.encode (Text.ascii "  \x7b \"src_hex\": \"") =
      CString.bytesOf "  \x7b \"src_hex\": \"" := by decide +kernel
  have jpName : Utf8.encode (Text.ascii "\", \"src_jp\": \"") =
      CString.bytesOf "\", \"src_jp\": \"" := by decide +kernel
  have targetName : Utf8.encode (Text.ascii "\", \"target\": \"") =
      CString.bytesOf "\", \"target\": \"" := by decide +kernel
  have closing : Utf8.encode (Text.ascii "\" \x7d") = CString.bytesOf "\" \x7d" := by decide +kernel
  have separator : Utf8.encode (if comma then [','] else []) =
      if comma then [0x2C] else [] := by
    cases comma <;> decide +kernel
  have lineBreak : Utf8.encode ['\n'] = [0x0A] := by decide +kernel
  refine ⟨_, by simp only [rowText, source, jp, en, escapeValue, Option.map_some]; rfl, ?_⟩
  simp only [Utf8.encode_append, encode_jsonEscape, opening, jpName, targetName, closing,
    separator, lineBreak, rowBytes]

/-- What stands in front of a row's first quote. -/
def rowFront : Bytes := CString.bytesOf "  \x7b "

/-- What stands behind a row's last quote. -/
def rowClosing (comma : Bool) : Bytes :=
  CString.bytesOf " \x7d" ++ (if comma then [0x2C] else []) ++ [0x0A]

/-- A row and what follows it, cut at the quotes. -/
theorem rowBytes_append {source jp en next jpLast enLast : Bytes} {comma : Bool}
    {jpInitial enInitial segments : List Bytes} (jpCut : Cut jp jpInitial jpLast)
    (enCut : Cut en enInitial enLast) :
    rowBytes source jp en comma ++ (next ++ quoted quote segments) =
      rowFront ++ quoted quote (srcWord :: colonSep :: source :: commaSep ::
        (untilEn jpInitial jpLast enInitial ++
          enLast :: (rowClosing comma ++ next) :: segments)) := by
  have opening : CString.bytesOf "  \x7b \"src_hex\": \"" =
      rowFront ++ quote :: (srcWord ++ quote :: (colonSep ++ [quote])) := by decide +kernel
  have jpName : CString.bytesOf "\", \"src_jp\": \"" =
      quote :: (commaSep ++ quote :: (jpWord ++ quote :: (colonSep ++ [quote]))) := by
    decide +kernel
  have targetName : CString.bytesOf "\", \"target\": \"" =
      quote :: (commaSep ++ quote :: (targetWord ++ quote :: (colonSep ++ [quote]))) := by
    decide +kernel
  have closing : CString.bytesOf "\" \x7d" = quote :: CString.bytesOf " \x7d" := by decide +kernel
  have jpPieces : quoted quote jpInitial ++ quote :: jpLast = quote :: escapeBytes jp := by
    rw [← quoted_pieces, jpCut.shape, quoted_append]
    simp [quoted_cons]
  have enPieces : quoted quote enInitial ++ quote :: enLast = quote :: escapeBytes en := by
    rw [← quoted_pieces, enCut.shape, quoted_append]
    simp [quoted_cons]
  have regroup : rowFront ++ quoted quote (srcWord :: colonSep :: source :: commaSep ::
      (untilEn jpInitial jpLast enInitial ++
        enLast :: (rowClosing comma ++ next) :: segments)) =
      rowFront ++ quote :: (srcWord ++ quote :: (colonSep ++ quote :: (source ++ quote ::
        (commaSep ++ quote :: (jpWord ++ quote :: (colonSep ++
          ((quoted quote jpInitial ++ quote :: jpLast) ++ quote :: (commaSep ++ quote ::
            (targetWord ++ quote :: (colonSep ++
              ((quoted quote enInitial ++ quote :: enLast) ++ quote ::
                (rowClosing comma ++ (next ++ quoted quote segments))))))))))))) := by
    simp [quoted_cons, quoted_append, untilEn, untilJp]
  rw [regroup, jpPieces, enPieces]
  simp [rowBytes, opening, jpName, targetName, closing, rowClosing]

theorem PlainSource.of_text {source : Text} (noQuote : '"' ∉ source)
    (noBackslash : '\\' ∉ source) : PlainSource (Utf8.encode source) := by
  have absent : ∀ special : Char, special.toNat < 128 → special ∉ source →
      UInt8.ofNat special.toNat ∉ Utf8.encode source :=
    fun special ascii => mt (Utf8.ofNat_mem_encode_iff ascii).mp
  intro byte member
  constructor
  · rintro rfl
    exact absent '"' (by decide) noQuote member
  · rintro rfl
    exact absent '\\' (by decide) noBackslash member

/-- A cut text the loader reads as `readings`, whatever stands in front of it. -/
structure ReadsAs (part : Bytes) (segments : List Bytes)
    (readings : List (UInt64 × XlateVal)) : Prop where
  free : quote ∉ part
  noColon : 0x3A ∉ part
  segmentsFree : Free quote segments
  next : segments = [] ∨ ∃ segment more, segments = srcWord :: segment :: more
  entries : loadEntries (part ++ quoted quote segments) = readings

/-- Another front without quotes reads the same. -/
theorem ReadsAs.of_front {part front : Bytes} {segments : List Bytes}
    {readings : List (UInt64 × XlateVal)} (reads : ReadsAs part segments readings)
    (frontFree : quote ∉ front) : loadEntries (front ++ quoted quote segments) = readings := by
  rw [← reads.entries]
  have noWord : srcWord ∉ ([] : List Bytes) := by simp
  exact loadEntries_skip frontFree reads.free (fun _ impossible => by cases impossible) noWord

/-- One more row in front of the others adds its reading. -/
theorem ReadsAs.row {part source : Bytes} {segments : List Bytes}
    {readings : List (UInt64 × XlateVal)} (reads : ReadsAs part segments readings)
    (plain : PlainSource source) (jp en : Bytes) (comma : Bool) :
    ∃ more, rowBytes source jp en comma ++ (part ++ quoted quote segments) =
        rowFront ++ quoted quote more ∧
      ReadsAs rowFront more ((rowReading source jp en).toList ++ readings) := by
  obtain ⟨jpInitial, jpLast, jpCut⟩ := exists_cut jp
  obtain ⟨enInitial, enLast, enCut⟩ := exists_cut en
  have closingPlain : quote ∉ rowClosing comma ∧ 0x3A ∉ rowClosing comma ∧
      (rowClosing comma).head? = some 0x20 := by
    cases comma <;> decide
  have follows : Follows (rowClosing comma ++ part) segments := by
    refine ⟨?_, ?_, ?_, reads.segmentsFree, reads.next⟩
    · simp [closingPlain.1, reads.free]
    · simp [closingPlain.2.1, reads.noColon]
    · rw [List.head?_append, closingPlain.2.2]
      rfl
  refine ⟨_, rowBytes_append jpCut enCut,
    ⟨by decide, by decide, ?_, Or.inr ⟨_, _, rfl⟩, ?_⟩⟩
  · intro segment member
    simp only [List.mem_cons, List.mem_append] at member
    rcases member with rfl | rfl | rfl | rfl | inRow | rfl | rfl | inRest
    · decide
    · decide
    · exact plain.free
    · decide
    · exact free_untilEn jpCut enCut segment inRow
    · exact enCut.lastFree
    · exact follows.free
    · exact reads.segmentsFree segment inRest
  · rw [loadEntries_row (by decide) plain jpCut enCut follows, reads.of_front follows.free]

/-! ## Whole files -/

/-- Formatting and writing the entry's row raises nothing. -/
def Entry.isWritten (entry : Entry) : Bool := (rowText entry false).isSome

theorem isSome_rowText (entry : Entry) (comma : Bool) :
    (rowText entry comma).isSome = entry.isWritten := by
  unfold Entry.isWritten rowText
  cases entry.srcHex with
  | none => rfl
  | some source =>
      cases escapeValue entry.srcJp with
      | none => rfl
      | some jp => cases escapeValue entry.target <;> rfl

/-- What follows a row: the closing line, the next row up to its `"src_hex"`, or nothing
when that raises. -/
def followedBy : List Entry → Bytes
  | [] => [0x5D, 0x0A]
  | next :: _ => if next.isWritten then rowFront ++ srcToken else []

/-- What an entry says to the loader when `rest` is written behind it: its texts say it,
or else the row as it stands. -/
def Entry.saying (entry : Entry) (rest : List Entry) : List (UInt64 × XlateVal) :=
  match entry.texts? with
  | some texts => texts.reading.toList
  | none =>
      match rowText entry (!rest.isEmpty) with
      | some row => loadEntries (Utf8.encode row ++ followedBy rest)
      | none => []

/-- What entries say that are written one behind the other, up to one that raises. -/
def sayings : List Entry → List (UInt64 × XlateVal)
  | [] => []
  | entry :: rest => if entry.isWritten then entry.saying rest ++ sayings rest else []

/-- The loader reads a row as the entry says. -/
theorem loadEntries_rowText {entry : Entry} {rest : List Entry} {row : Text}
    (written : rowText entry (!rest.isEmpty) = some row) :
    loadEntries (Utf8.encode row ++ followedBy rest) = entry.saying rest := by
  unfold Entry.saying
  split
  next texts read =>
    obtain ⟨other, otherEq, encoded⟩ := encode_rowText read (!rest.isEmpty)
    rw [written] at otherEq
    cases otherEq
    obtain ⟨_, _, _, noQuote, noBackslash⟩ := texts?_eq_some read
    have none_free : Free quote [] := fun _ impossible => by cases impossible
    have cut : ∃ part segments, followedBy rest = part ++ quoted quote segments ∧
        ReadsAs part segments [] := by
      unfold followedBy
      split
      next => exact ⟨[0x5D, 0x0A], [], by decide, ⟨by decide, by decide, none_free,
        Or.inl rfl, by decide +kernel⟩⟩
      next =>
        split
        next =>
          refine ⟨rowFront, [srcWord, []], by decide, ⟨by decide, by decide, ?_,
            Or.inr ⟨[], [], rfl⟩, by decide +kernel⟩⟩
          intro segment member
          simp only [List.mem_cons, List.not_mem_nil, or_false] at member
          rcases member with rfl | rfl
          · exact srcWord_free
          · simp
        next => exact ⟨[], [], rfl, ⟨by simp, by simp, none_free, Or.inl rfl,
            by decide +kernel⟩⟩
    obtain ⟨part, segments, shape, reads⟩ := cut
    obtain ⟨more, rowShape, rowReads⟩ := reads.row (PlainSource.of_text noQuote noBackslash)
      (Utf8.encode texts.jp) (Utf8.encode texts.en) (!rest.isEmpty)
    rw [encoded, shape, rowShape, rowReads.entries, List.append_nil]
    rfl
  next => rw [written]

/-- A row starts with its front and the name of its first field. -/
theorem encode_row_front {entry : Entry} {comma : Bool} {row : Text}
    (written : rowText entry comma = some row) :
    ∃ rest, Utf8.encode row = rowFront ++ (srcToken ++ rest) := by
  have opening : Utf8.encode (Text.ascii "  \x7b \"src_hex\": \"") =
      rowFront ++ (srcToken ++ CString.bytesOf ": \"") := by decide +kernel
  unfold rowText at written
  obtain ⟨source, _, written⟩ := Option.bind_eq_some_iff.mp written
  obtain ⟨jp, _, written⟩ := Option.bind_eq_some_iff.mp written
  obtain ⟨en, _, written⟩ := Option.bind_eq_some_iff.mp written
  cases written
  simp only [Utf8.encode_append, opening, List.append_assoc]
  exact ⟨_, rfl⟩

/-- A front without quotes is not read. -/
theorem loadEntries_front {front : Bytes} (free : quote ∉ front) (rest : Bytes) :
    loadEntries (front ++ rest) = loadEntries rest := by
  have behind : front.length ≤ entryEnd (front ++ rest) := by
    unfold entryEnd
    rw [srcToken_eq, token, indexOf?_append_free free]
    cases Search.indexOf? (quote :: (srcWord ++ [quote])) rest <;> simp
  have dropped := loadEntries_drop behind
  rw [List.drop_left] at dropped
  exact dropped.symm

/-- The loader reads written rows as their entries say. -/
theorem loadEntries_writeRows (entries : List Entry) :
    loadEntries (Utf8.encode (writeRows entries)) = sayings entries := by
  induction entries with
  | nil => decide +kernel
  | cons entry rest inductionHypothesis =>
      rw [writeRows, sayings]
      cases written : rowText entry (!rest.isEmpty) with
      | none =>
          have raises := isSome_rowText entry (!rest.isEmpty)
          rw [written] at raises
          rw [← raises]
          rfl
      | some row =>
          have isWritten := isSome_rowText entry (!rest.isEmpty)
          rw [written] at isWritten
          rw [← isWritten]
          simp only [Option.isSome_some, if_true]
          rw [← loadEntries_rowText written, ← inductionHypothesis, Utf8.encode_append]
          cases rest with
          | nil =>
              have closing : Utf8.encode (writeRows []) = [0x5D, 0x0A] := by decide +kernel
              have nothing : loadEntries [0x5D, 0x0A] = [] := by decide +kernel
              rw [closing, nothing, List.append_nil]
              rfl
          | cons next others =>
              have following : followedBy (next :: others) =
                  if next.isWritten then rowFront ++ srcToken else [] := rfl
              have nextWritten := isSome_rowText next (!others.isEmpty)
              cases nextRow : rowText next (!others.isEmpty) with
              | none =>
                  rw [nextRow] at nextWritten
                  have stops : Utf8.encode (writeRows (next :: others)) = [] := by
                    rw [writeRows, nextRow]
                    rfl
                  have nothing : loadEntries [] = [] := rfl
                  rw [stops, following, ← nextWritten, nothing]
                  simp
              | some nextText =>
                  rw [nextRow] at nextWritten
                  obtain ⟨behind, front⟩ := encode_row_front nextRow
                  have shape : Utf8.encode (writeRows (next :: others)) =
                      rowFront ++ (srcToken ++ (behind ++ Utf8.encode (writeRows others))) := by
                    rw [writeRows, nextRow]
                    simp only [Utf8.encode_append, front, List.append_assoc]
                  have blank : EndsBlank (Utf8.encode row ++ rowFront) := by
                    rw [EndsBlank, List.getLast?_append_of_ne_nil _ (by decide)]
                    rfl
                  have pieces := loadEntries_append_src blank
                    (behind ++ Utf8.encode (writeRows others))
                  have noQuote : quote ∉ rowFront := by decide
                  rw [shape, following, ← nextWritten]
                  simp only [Option.isSome_some, if_true]
                  rw [loadEntries_front noQuote, ← List.append_assoc, pieces, List.append_assoc]

/-- The loader reads a written file as its entries say. -/
theorem loadEntries_writeEntries (entries : List Entry) :
    loadEntries (writeEntries entries) = sayings entries := by
  have opening : Utf8.encode ['[', '\n'] = [0x5B, 0x0A] := by decide +kernel
  have noQuote : quote ∉ ([0x5B, 0x0A] : Bytes) := by decide
  rw [writeEntries, Utf8.encode_append, opening, loadEntries_front noQuote,
    loadEntries_writeRows]

end StadiumRecomp.Translate
