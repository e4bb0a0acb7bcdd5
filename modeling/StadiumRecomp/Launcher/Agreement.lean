import StadiumRecomp.Launcher.TransferPak

/-!
Contract: when the readers of `launcher.cfg` see the same Transfer Pak.

Owns: agreement of `port_assignment` and `load_config` on a port, the lines both
readers parse alike, and the theorem that files made of such lines agree.

Does not own: what either side does with the cart.
-/

set_option autoImplicit false

namespace StadiumRecomp.Launcher

open StadiumRecomp.Lib
open StadiumRecomp.Lib.CString

/-! ## Agreement -/

/-- `port_assignment` sees a pak on the port exactly when `load_config` registers
a cart there, and that cart has the paths of the launcher's own map. -/
structure Agree (file : Bytes) (port : Fin 4) : Prop where
  registered : tpakOn (readCfgMap file) port = true ↔
    ∃ cart ∈ TransferPak.loadConfig file, cart.port = port
  paths : ∀ cart ∈ TransferPak.loadConfig file, cart.port = port →
    cart.rom = TransferPak.makePath
        (getValue (readCfgMap file) (portKey port (bytesOf "_rom"))) ∧
      cart.save = TransferPak.makePath
        (getValue (readCfgMap file) (portKey port (bytesOf "_save")))

/-- The paths of a port's pak. -/
def pathSuffixes : List Bytes := [bytesOf "_rom", bytesOf "_save"]

/-- A key under which some port's pak has a path. -/
def IsPathKey (key : Bytes) : Prop :=
  ∃ port : Fin 4, ∃ suffix ∈ pathSuffixes, key = portKey port suffix

/-- One of the readers takes the line for a path of some port's pak. -/
def AssignsPath (line : Bytes) : Prop :=
  ∃ key value, IsPathKey key ∧
    (entryOfLine line = some (key, value) ∨
      TransferPak.entryOfLine line = some (key, value))

/-- Lines both readers trim alike: no vertical tab or form feed, and neither the
whole line nor its key or value in matching quotes. -/
structure PlainLine (line : Bytes) : Prop where
  noTab : 0x0B ∉ Text.cutAt isComment line
  noFeed : 0x0C ∉ Text.cutAt isComment line
  whole : ¬ TransferPak.Quoted (trim (Text.cutAt isComment line))
  parts : ∀ key value,
    Text.splitFirst isEquals (Text.cutAt isComment line) = some (key, value) →
      ¬ TransferPak.Quoted (trim key) ∧ ¬ TransferPak.Quoted (trim value)

/-- The last assignment of a key is not empty, or none of them is. -/
def NeverCleared (file key : Bytes) : Prop :=
  Dict.lastWrite (cfgEntries file) key = some [] →
    ∀ entry ∈ cfgEntries file, entry.1 = key → entry.2 = []

instance (line : Bytes) : Decidable (PlainLine line) :=
  decidable_of_iff
    ((0x0B ∉ Text.cutAt isComment line ∧ 0x0C ∉ Text.cutAt isComment line) ∧
      ¬ TransferPak.Quoted (trim (Text.cutAt isComment line)) ∧
      ∀ parts ∈ Text.splitFirst isEquals (Text.cutAt isComment line),
        ¬ TransferPak.Quoted (trim parts.1) ∧ ¬ TransferPak.Quoted (trim parts.2))
    ⟨fun all => ⟨all.1.1, all.1.2, all.2.1, fun key value split =>
        all.2.2 (key, value) split⟩,
      fun plain => ⟨⟨plain.noTab, plain.noFeed⟩, plain.whole, fun parts split =>
        plain.parts parts.1 parts.2 split⟩⟩

instance (file key : Bytes) : Decidable (NeverCleared file key) :=
  inferInstanceAs (Decidable (_ → _))

/-! ## One line -/

/-- Without vertical tabs and form feeds both readers trim the same blanks. -/
theorem strip_isSpace_eq_trim {text : Bytes} (noTab : 0x0B ∉ text) (noFeed : 0x0C ∉ text) :
    Text.strip isSpace text = trim text := by
  apply Text.strip_congr
  intro byte member
  have notTab : byte ≠ 0x0B := fun same => noTab (same ▸ member)
  have notFeed : byte ≠ 0x0C := fun same => noFeed (same ▸ member)
  unfold isSpace isBlank
  rw [Bool.eq_iff_iff]
  simp only [Bool.or_eq_true, Bool.and_eq_true, decide_eq_true_eq, beq_iff_eq,
    UInt8.le_iff_toNat_le, ← UInt8.toNat_inj, ne_eq] at notTab notFeed ⊢
  simp only [UInt8.toNat_ofNat] at notTab notFeed ⊢
  omega

theorem pakTrim_eq_trim {text : Bytes} (noTab : 0x0B ∉ text) (noFeed : 0x0C ∉ text)
    (unquoted : ¬ TransferPak.Quoted (trim text)) : TransferPak.trim text = trim text := by
  unfold TransferPak.trim
  rw [strip_isSpace_eq_trim noTab noFeed]
  simp only
  rw [if_neg unquoted]

/-- The first byte of a path key is the letter `p`. -/
theorem IsPathKey.head {key : Bytes} (isPath : IsPathKey key) : key.head? = some 0x70 := by
  obtain ⟨port, suffix, _, rfl⟩ := isPath
  rfl

theorem isEquals_not_blank (byte : UInt8) (equals : isEquals byte = true) :
    isBlank byte = false := by
  rw [beq_iff_eq.mp equals]
  decide

/-- What both readers make of a plain line with an equals sign. -/
theorem entries_of_split {line : Bytes} (plain : PlainLine line) {left right : Bytes}
    (split : Text.splitFirst isEquals (Text.cutAt isComment line) = some (left, right)) :
    (entryOfLine line = if toLowerStr (trim left) = [] then none
      else some (toLowerStr (trim left), trim right)) ∧
    TransferPak.entryOfLine line =
      if (trim (Text.cutAt isComment line)).head? = some 0x5B then none
      else if toLowerStr (trim left) ≠ [] ∧ trim right ≠ [] then
        some (toLowerStr (trim left), trim right)
      else none := by
  obtain ⟨unquotedLeft, unquotedRight⟩ := plain.parts left right split
  obtain ⟨trimmedLeft, trimmedRight, trimmedSplit, sameLeft, sameRight⟩ :=
    Text.splitFirst_strip isEquals_not_blank split
  obtain ⟨equals, isEq, trimmed, _⟩ := Text.splitFirst_eq_some trimmedSplit
  have trimmedTo : ∀ part other : Bytes, part ⊆ trimmedLeft ++ equals :: trimmedRight →
      trim part = trim other → ¬ TransferPak.Quoted (trim other) →
      TransferPak.trim part = trim other := by
    intro part other inside same unquoted
    have inLine : ∀ byte ∈ part, byte ∈ Text.cutAt isComment line := by
      intro byte member
      have inTrimmed := inside member
      rw [← trimmed] at inTrimmed
      exact Text.mem_of_mem_strip inTrimmed
    rw [← same]
    apply pakTrim_eq_trim (fun member => plain.noTab (inLine _ member))
      (fun member => plain.noFeed (inLine _ member))
    rwa [same]
  have leftTrim := trimmedTo trimmedLeft left
    (fun byte member => List.mem_append_left _ member) sameLeft unquotedLeft
  have rightTrim := trimmedTo trimmedRight right
    (fun byte member => List.mem_append_right _ (List.mem_cons_of_mem _ member))
    sameRight unquotedRight
  have nonempty : trim (Text.cutAt isComment line) ≠ [] := by
    unfold trim
    rw [trimmed]
    simp
  have trimmedSplit : Text.splitFirst isEquals (trim (Text.cutAt isComment line)) =
      some (trimmedLeft, trimmedRight) := trimmedSplit
  constructor
  · unfold entryOfLine
    rw [split]
    simp only [List.isEmpty_iff]
  · unfold TransferPak.entryOfLine
    rw [pakTrim_eq_trim plain.noTab plain.noFeed plain.whole]
    simp only [trimmedSplit, nonempty, false_or, leftTrim, rightTrim]

/-- A line that starts with a bracket has a bracket in its key. -/
theorem header_key {line left right : Bytes}
    (split : Text.splitFirst isEquals (Text.cutAt isComment line) = some (left, right))
    (header : (trim (Text.cutAt isComment line)).head? = some 0x5B) :
    (toLowerStr (trim left)).head? = some 0x5B := by
  obtain ⟨trimmedLeft, trimmedRight, trimmedSplit, sameLeft, _⟩ :=
    Text.splitFirst_strip isEquals_not_blank split
  obtain ⟨equals, isEq, trimmed, _⟩ := Text.splitFirst_eq_some trimmedSplit
  unfold trim at header ⊢
  rw [trimmed] at header
  rw [← sameLeft]
  cases trimmedLeft with
  | nil =>
      simp only [List.nil_append, List.head?_cons, Option.some.injEq] at header
      rw [header] at isEq
      cases isEq
  | cons first rest =>
      simp only [List.cons_append, List.head?_cons, Option.some.injEq] at header
      rw [header]
      have plain : isBlank 0x5B = false := rfl
      have kept := Text.strip_cons_head plain rest
      unfold toLowerStr
      rw [List.head?_map, kept]
      rfl

/-- On a plain line the glue reads a path exactly when the launcher reads a
non-empty one. -/
theorem pakEntryOfLine_iff {line : Bytes} (plain : PlainLine line) {key : Bytes}
    (isPath : IsPathKey key) (value : Bytes) :
    TransferPak.entryOfLine line = some (key, value) ↔
      entryOfLine line = some (key, value) ∧ value ≠ [] := by
  cases split : Text.splitFirst isEquals (Text.cutAt isComment line) with
  | none =>
      have trimmedSplit :
          Text.splitFirst isEquals (trim (Text.cutAt isComment line)) = none := by
        rw [Text.splitFirst_eq_none_iff] at split ⊢
        intro byte member
        exact split byte (Text.mem_of_mem_strip member)
      unfold TransferPak.entryOfLine entryOfLine
      rw [pakTrim_eq_trim plain.noTab plain.noFeed plain.whole]
      simp [trimmedSplit, split]
  | some parts =>
      obtain ⟨left, right⟩ := parts
      obtain ⟨launcher, glue⟩ := entries_of_split plain split
      rw [launcher, glue]
      by_cases header : (trim (Text.cutAt isComment line)).head? = some 0x5B
      · -- A line the glue skips has no path key for the launcher either.
        have bracket := header_key split header
        have notPath : toLowerStr (trim left) ≠ key := by
          intro same
          rw [same, isPath.head] at bracket
          cases bracket
        simp [header, notPath]
      · by_cases noKey : toLowerStr (trim left) = []
        · simp [header, noKey]
        · by_cases noValue : trim right = []
          · simp only [header, noKey, noValue, if_false, not_true, and_false, ne_eq,
              reduceCtorEq, Option.some.injEq, Prod.mk.injEq, false_iff]
            intro ⟨⟨_, empty⟩, kept⟩
            exact kept empty.symm
          · simp only [header, noKey, noValue, if_false, if_true, not_false_eq_true, and_self,
              ne_eq, Option.some.injEq, Prod.mk.injEq]
            constructor
            · intro ⟨keyEq, valueEq⟩
              exact ⟨⟨keyEq, valueEq⟩, valueEq ▸ noValue⟩
            · exact fun both => both.1

/-! ## Whole files -/

/-- What both maps hold under a path key. -/
theorem get?_readConfigFile {file : Bytes}
    (plain : ∀ line ∈ Text.linesBy isNewline file, AssignsPath line → PlainLine line)
    {key : Bytes} (isPath : IsPathKey key) (kept : NeverCleared file key) :
    (TransferPak.readConfigFile file).get? key =
      if getValue (readCfgMap file) key = [] then none
      else some (getValue (readCfgMap file) key) := by
  have same : ∀ line ∈ Text.linesBy isNewline file, ∀ value,
      TransferPak.entryOfLine line = some (key, value) ↔
        entryOfLine line = some (key, value) ∧ value ≠ [] := by
    intro line member value
    by_cases assigns : AssignsPath line
    · exact pakEntryOfLine_iff (plain line member assigns) isPath value
    · constructor
      · intro read
        exact absurd ⟨key, value, isPath, Or.inr read⟩ assigns
      · intro ⟨read, _⟩
        exact absurd ⟨key, value, isPath, Or.inl read⟩ assigns
  unfold TransferPak.readConfigFile getValue
  rw [get?_readCfgMap, Dict.get?_writes, Dict.get?_nil, Option.or_none]
  cases last : Dict.lastWrite (cfgEntries file) key with
  | none =>
      rw [Dict.lastWrite_eq_none_iff] at last
      have nothing := Dict.lastWrite_filterMap_of_skipped same (by
        intro value member
        exact absurd rfl (last (key, value) member))
      simpa using nothing
  | some value =>
      by_cases empty : value = []
      · subst empty
        have nothing := Dict.lastWrite_filterMap_of_skipped same (by
          intro value member
          exact not_not.mpr (kept last (key, value) member rfl))
        simpa using nothing
      · have found := Dict.lastWrite_filterMap_of_kept same last empty
        simpa [empty] using found

/-- The path a port resolves is the one the launcher's map names. -/
theorem portPath_eq_makePath {file : Bytes}
    (plain : ∀ line ∈ Text.linesBy isNewline file, AssignsPath line → PlainLine line)
    (port : Fin 4) {suffix : Bytes} (isPath : suffix ∈ pathSuffixes)
    (kept : NeverCleared file (portKey port suffix)) :
    TransferPak.portPath (TransferPak.readConfigFile file) port suffix =
      TransferPak.makePath (getValue (readCfgMap file) (portKey port suffix)) := by
  unfold TransferPak.portPath
  rw [get?_readConfigFile plain ⟨port, suffix, isPath, rfl⟩ kept]
  unfold TransferPak.makePath
  split <;> simp_all

theorem mem_loadConfig_iff {file : Bytes} {cart : TransferPak.Cart} :
    cart ∈ TransferPak.loadConfig file ↔
      cart.rom = TransferPak.portPath (TransferPak.readConfigFile file) cart.port
          (bytesOf "_rom") ∧
        cart.save = TransferPak.portPath (TransferPak.readConfigFile file) cart.port
          (bytesOf "_save") ∧ cart.rom ≠ none := by
  unfold TransferPak.loadConfig
  simp only [List.mem_filterMap, List.mem_finRange, true_and]
  constructor
  · intro ⟨port, registered⟩
    split at registered
    next present =>
      cases registered
      exact ⟨rfl, rfl, present⟩
    next => cases registered
  · intro ⟨rom, save, present⟩
    refine ⟨cart.port, ?_⟩
    rw [rom] at present
    rw [if_pos present, ← rom, ← save]

/-- The readers agree on every file whose path lines both trim alike and whose
paths are not cleared by a later empty assignment. -/
theorem transferPak_readers_agree (file : Bytes)
    (plain : ∀ line ∈ Text.linesBy isNewline file, AssignsPath line → PlainLine line)
    (port : Fin 4)
    (kept : ∀ suffix ∈ pathSuffixes, NeverCleared file (portKey port suffix)) :
    Agree file port := by
  have romListed : bytesOf "_rom" ∈ pathSuffixes := by decide
  have saveListed : bytesOf "_save" ∈ pathSuffixes := by decide
  have rom := portPath_eq_makePath plain port romListed (kept _ romListed)
  have save := portPath_eq_makePath plain port saveListed (kept _ saveListed)
  constructor
  · have present : tpakOn (readCfgMap file) port = true ↔
        getValue (readCfgMap file) (portKey port (bytesOf "_rom")) ≠ [] := by
      unfold tpakOn getValue
      cases (readCfgMap file).get? (portKey port (bytesOf "_rom")) <;> simp
    rw [present]
    constructor
    · intro nonempty
      refine ⟨⟨port,
        TransferPak.portPath (TransferPak.readConfigFile file) port (bytesOf "_rom"),
        TransferPak.portPath (TransferPak.readConfigFile file) port (bytesOf "_save")⟩,
        mem_loadConfig_iff.mpr ⟨rfl, rfl, ?_⟩, rfl⟩
      simp only [rom, TransferPak.makePath, nonempty]
      simp
    · rintro ⟨cart, member, rfl⟩ empty
      obtain ⟨romEq, _, registered⟩ := mem_loadConfig_iff.mp member
      rw [romEq, rom, empty] at registered
      exact registered rfl
  · rintro cart member rfl
    obtain ⟨romEq, saveEq, _⟩ := mem_loadConfig_iff.mp member
    exact ⟨romEq.trans rom, saveEq.trans save⟩

/-- A hand-kept file with comments, blanks and a key written twice. -/
def plainFile : Bytes :=
  bytesOf "# paks\np1_rom = old.gb\n[paks]\nP1_ROM=red.gb ; left\np1_save=red.sav\n"

theorem transferPak_readers_agree_example : Agree plainFile 0 := by
  have plain : ∀ line ∈ Text.linesBy isNewline plainFile, PlainLine line := by
    decide +kernel
  exact transferPak_readers_agree plainFile (fun line member _ => plain line member) 0
    (by decide +kernel)

/-- A quoted path, a cleared path and a path of one form feed: the glue drops the
quotes, keeps the cleared path and sees no cart. -/
theorem transferPak_readers_disagree :
    ¬ Agree (bytesOf "p1_rom=\"red.gb\"\n") 0 ∧
    ¬ Agree (bytesOf "p1_rom=red.gb\np1_rom=\n") 0 ∧
    ¬ Agree (bytesOf "p1_rom=" ++ [0x0C, 0x0A]) 0 := by
  refine ⟨?_, ?_, ?_⟩
  · intro agree
    have paths := agree.paths ⟨0, some (bytesOf "red.gb"), none⟩ (by decide +kernel) rfl
    revert paths
    decide +kernel
  · intro agree
    have registered : tpakOn (readCfgMap (bytesOf "p1_rom=red.gb\np1_rom=\n")) 0 = true :=
      agree.registered.mpr ⟨⟨0, some (bytesOf "red.gb"), none⟩, by decide +kernel, rfl⟩
    revert registered
    decide +kernel
  · intro agree
    obtain ⟨cart, member, _⟩ := agree.registered.mp (by decide +kernel)
    have none : TransferPak.loadConfig (bytesOf "p1_rom=" ++ [0x0C, 0x0A]) = [] := by
      decide +kernel
    rw [none] at member
    cases member

end StadiumRecomp.Launcher
