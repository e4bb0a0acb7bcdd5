import StadiumRecomp.Translate.Master

/-!
Contract: the captured strings over many sessions, each leaving a dump that
`pms_build_translations.py decode` folds into the master.

Owns: the sessions, what the master holds after any sequence of them, and what running once more
on a known dump changes.

Does not own: what a session draws, and `build`.
-/

set_option autoImplicit false

namespace StadiumRecomp.Translate

open StadiumRecomp.Lib
open StadiumRecomp.Lib.HexText
open StadiumRecomp.Lib.PyInt
open StadiumRecomp.Lib.PyText
open StadiumRecomp.Census
open StadiumRecomp.Guest (isTextByte)

/-! ## Sessions -/

/-- The inventory when the dump is written: distinct keys, strings of text bytes. -/
structure Session where
  inv : StrInv
  distinct : ((strings inv).map StrInvEntry.key).Nodup
  filled : ∀ slot ∈ strings inv, slot.bytes ≠ []
  texts : ∀ slot ∈ strings inv, ∀ c ∈ slot.bytes, isTextByte c = true

namespace Session

def dump (session : Session) : Text := dumpText session.inv

/-- The strings seen in the session. -/
def seen (session : Session) : List StrInvEntry := strings session.inv

/-- The rows its dump reads back as. -/
def rows (codec : Codec) (session : Session) : List MasterRow :=
  (dumpOrder session.inv).map (rowOf codec)

end Session

/-- Whatever text is offered to the inventory, it is one that a session can end with. -/
theorem exists_session {calls : List UpsertCall}
    (texts : ∀ call ∈ calls, ∀ c ∈ call.bytes, isTextByte c = true) :
    ∃ session : Session, session.inv = calls.foldl strinvUpsert .empty := by
  have seen : strings (recorded calls) = (keptKeys calls).map (entryFor calls) :=
    filter_used_recorded calls
  have offered {slot : StrInvEntry} (member : slot ∈ strings (recorded calls)) :
      ∃ call ∈ calls, call.bytes ≠ [] ∧ slot.bytes = call.bytes := by
    rw [seen] at member
    obtain ⟨key, kept, rfl⟩ := List.mem_map.mp member
    have some := mem_firstKeys.mp (keptKeys_subset calls kept)
    have first := List.mem_filter.mp (List.head_mem some)
    refine ⟨_, first.1, (of_decide_eq_true first.2).1, ?_⟩
    show ((callsOf calls key).head?.map UpsertCall.bytes).getD [] = _
    rw [List.head?_eq_some_head some]
    rfl
  rw [foldl_strinvUpsert]
  refine ⟨⟨recorded calls, ?_, ?_, ?_⟩, rfl⟩
  · rw [seen, List.map_map]
    exact (List.map_id _).symm ▸ nodup_keptKeys calls
  · intro slot member
    obtain ⟨call, _, nonempty, same⟩ := offered member
    exact same ▸ nonempty
  · intro slot member
    obtain ⟨call, inCalls, _, same⟩ := offered member
    exact same ▸ texts call inCalls

/-- `cmd_decode` after each session, from no master on; the inner `none` is no file, the outer one
a run that raises. -/
def runSessions (codec : Codec) (sessions : List Session) : Option (Option Text) :=
  sessions.foldlM (fun tsv session => (cmdDecode codec (some session.dump) tsv).map some) none

/-- The string that was captured last under a key. -/
def LatestString (sessions : List Session) (key : Text) (slot : StrInvEntry) : Prop :=
  ∃ earlier session later, sessions = earlier ++ session :: later ∧ slot ∈ session.seen ∧
    slotKey slot = key ∧ ∀ other ∈ later, ∀ entry ∈ other.seen, slotKey entry ≠ key

/-- The master has exactly the keys of the sessions, each with its highest count and its latest
string and coordinates. -/
structure Accumulates (codec : Codec) (sessions : List Session) (master : Dict Text MasterRow) :
    Prop where
  keys : ∀ key, key ∈ master.map Prod.fst ↔
    ∃ session ∈ sessions, ∃ slot ∈ session.seen, slotKey slot = key
  highest : ∀ key row, master.get? key = some row →
    ∀ session ∈ sessions, ∀ slot ∈ session.seen, slotKey slot = key →
      (slot.count.toNat : Int) ≤ row.count
  reached : ∀ key row, master.get? key = some row →
    ∃ session ∈ sessions, ∃ slot ∈ session.seen, slotKey slot = key ∧
      row.count = (slot.count.toNat : Int)
  latest : ∀ key row, master.get? key = some row →
    ∃ slot, LatestString sessions key slot ∧ row.srcHex = hexText slot.bytes ∧
      row.jp = flatten (decodeEuc codec slot.bytes) ∧ row.x = (slot.a0.toNat : Int) ∧
      row.y = (slot.a1.toNat : Int)

/-- A row after one more run on the dump of a session: at most the coordinates have changed, as
long as the session has no other string under the key. -/
structure OnlyMoved (session : Session) (before after : MasterRow) : Prop where
  key : after.key = before.key
  count : after.count = before.count
  string : (∀ slot ∈ session.seen, slotKey slot = before.key →
      hexText slot.bytes = before.srcHex) →
    after.srcHex = before.srcHex ∧ after.jp = before.jp

/-! ## The rows of a dump -/

theorem slotKey_inj {left right : StrInvEntry} (same : slotKey left = slotKey right) :
    left.key = right.key := by
  have digits := List.tail_eq_of_cons_eq (List.tail_eq_of_cons_eq same)
  have read := natLiteral_hexPadded keepsDigits_toUpper rfl 16 left.key.toNat
  rw [digits, natLiteral_hexPadded keepsDigits_toUpper rfl 16 right.key.toNat] at read
  exact (UInt64.toNat_inj.mp (Option.some.inj read)).symm

section Rows

variable {codec : Codec} {session : Session}

theorem mem_rows {row : MasterRow} :
    row ∈ session.rows codec ↔ ∃ slot ∈ session.seen, rowOf codec slot = row := by
  unfold Session.rows
  rw [List.mem_map]
  simp only [(dumpOrder_perm session.inv).mem_iff]
  rfl

theorem slots_inj {left right : StrInvEntry} (leftIn : left ∈ session.seen)
    (rightIn : right ∈ session.seen) (same : slotKey left = slotKey right) : left = right :=
  List.inj_on_of_nodup_map session.distinct leftIn rightIn (slotKey_inj same)

theorem rows_nodup (codec : Codec) (session : Session) :
    ((session.rows codec).map MasterRow.key).Nodup := by
  unfold Session.rows
  rw [List.map_map]
  apply List.Nodup.map_on
  · intro left leftIn right rightIn same
    exact slots_inj ((dumpOrder_perm _).mem_iff.mp leftIn) ((dumpOrder_perm _).mem_iff.mp rightIn)
      same
  · exact ((dumpOrder_perm _).nodup_iff).mpr (List.Nodup.of_map _ session.distinct)

theorem parseDump_dump (codec : Codec) (session : Session) :
    parseDump codec (some session.dump) = some (session.rows codec) :=
  parseDump_dumpText codec session.filled

theorem rows_plain (plain : PlainCodec codec) : ∀ row ∈ session.rows codec, PlainRow row := by
  intro row member
  obtain ⟨slot, inSession, rfl⟩ := mem_rows.mp member
  exact plainRow_rowOf plain (session.texts slot inSession)

end Rows

/-! ## Absorbing rows -/

theorem mergeRow_key (known : Option MasterRow) (row : MasterRow) :
    (mergeRow known row).key = row.key := by
  cases known with
  | none => rfl
  | some old => rfl

theorem get?_record (master : Dict Text MasterRow) (row : MasterRow) (key : Text) :
    (record master row).get? key =
      if row.key = key then some (mergeRow (master.get? row.key) row) else master.get? key :=
  Dict.get?_set _ _ _ _

theorem get?_absorb_other {master : Dict Text MasterRow} {rows : List MasterRow} {key : Text}
    (absent : ∀ row ∈ rows, row.key ≠ key) : (absorb master rows).get? key = master.get? key := by
  induction rows generalizing master with
  | nil => rfl
  | cons row rest inductionHypothesis =>
      show (absorb (record master row) rest).get? key = _
      rw [inductionHypothesis fun other member => absent other (List.mem_cons_of_mem _ member),
        get?_record, if_neg (absent row List.mem_cons_self)]

theorem get?_absorb_mem {master : Dict Text MasterRow} {rows : List MasterRow} {row : MasterRow}
    (distinct : (rows.map MasterRow.key).Nodup) (member : row ∈ rows) :
    (absorb master rows).get? row.key = some (mergeRow (master.get? row.key) row) := by
  induction rows generalizing master with
  | nil => cases member
  | cons head rest inductionHypothesis =>
      obtain ⟨fresh, restDistinct⟩ := List.nodup_cons.mp distinct
      show (absorb (record master head) rest).get? row.key = _
      rcases List.mem_cons.mp member with rfl | later
      · rw [get?_absorb_other, get?_record, if_pos rfl]
        intro other inRest same
        exact fresh (same ▸ List.mem_map_of_mem inRest)
      · rw [inductionHypothesis restDistinct later, get?_record, if_neg]
        intro same
        exact fresh (same ▸ List.mem_map_of_mem later)

section Session

variable {codec : Codec} {master : Dict Text MasterRow} {session : Session}

/-- A string of the session has its row merged. -/
theorem get?_absorb_seen {slot : StrInvEntry} (seen : slot ∈ session.seen) :
    (absorb master (session.rows codec)).get? (slotKey slot) =
      some (mergeRow (master.get? (slotKey slot)) (rowOf codec slot)) :=
  @get?_absorb_mem master _ (rowOf codec slot) (rows_nodup codec session)
    (mem_rows.mpr ⟨slot, seen, rfl⟩)

/-- Where a row comes from: merged with a string of the session, or there before. -/
theorem absorb_cases {key : Text} {row : MasterRow}
    (found : (absorb master (session.rows codec)).get? key = some row) :
    (∃ slot ∈ session.seen, slotKey slot = key ∧
      row = mergeRow (master.get? key) (rowOf codec slot)) ∨
    ((∀ slot ∈ session.seen, slotKey slot ≠ key) ∧ master.get? key = some row) := by
  by_cases seen : ∃ slot ∈ session.seen, slotKey slot = key
  · obtain ⟨slot, inSession, rfl⟩ := seen
    rw [get?_absorb_seen inSession] at found
    exact Or.inl ⟨slot, inSession, rfl, (Option.some.inj found).symm⟩
  · have absent : ∀ slot ∈ session.seen, slotKey slot ≠ key := fun slot inSession same =>
      seen ⟨slot, inSession, same⟩
    rw [get?_absorb_other] at found
    · exact Or.inr ⟨absent, found⟩
    · intro row member
      obtain ⟨slot, inSession, rfl⟩ := mem_rows.mp member
      exact absent slot inSession

end Session

/-! ## Masters -/

/-- A master that can be written: one plain row for each key, under that key. -/
structure Shelved (master : Dict Text MasterRow) : Prop where
  distinct : Dict.Distinct master
  keyed : ∀ entry ∈ master, entry.2.key = entry.1
  plain : ∀ entry ∈ master, PlainRow entry.2

theorem mergeRow_plain {known : Option MasterRow} {row : MasterRow} (plain : PlainRow row) :
    PlainRow (mergeRow known row) := by
  cases known with
  | none => exact plain
  | some old => exact { plain with count := Int.le_trans plain.count (Int.le_max_left _ _) }

theorem PlainRow.flat {row : MasterRow} (plain : PlainRow row) : PlainRow row.flat :=
  { plain with
    jp := fun symbol member boundary => by
      rw [(flatten_plain plain.jp symbol member).2] at boundary
      cases boundary }

section Shelves

variable {master : Dict Text MasterRow}

theorem Shelved.empty : Shelved [] where
  distinct := Dict.Distinct.nil
  keyed _ member := absurd member List.not_mem_nil
  plain _ member := absurd member List.not_mem_nil

theorem Shelved.record (shelved : Shelved master) {row : MasterRow} (plain : PlainRow row) :
    Shelved (record master row) := by
  constructor
  · exact shelved.distinct.set _ _
  · intro entry member
    rcases Dict.mem_set member with rfl | before
    · exact mergeRow_key _ row
    · exact shelved.keyed entry before
  · intro entry member
    rcases Dict.mem_set member with rfl | before
    · exact mergeRow_plain plain
    · exact shelved.plain entry before

theorem Shelved.absorb (shelved : Shelved master) {rows : List MasterRow}
    (plain : ∀ row ∈ rows, PlainRow row) : Shelved (absorb master rows) := by
  induction rows generalizing master with
  | nil => exact shelved
  | cons row rest inductionHypothesis =>
      exact inductionHypothesis (shelved.record (plain row List.mem_cons_self))
        fun other member => plain other (List.mem_cons_of_mem _ member)

theorem Shelved.keys_eq (shelved : Shelved master) :
    (master.map Prod.snd).map MasterRow.key = master.map Prod.fst := by
  rw [List.map_map]
  exact List.map_congr_left shelved.keyed

theorem Shelved.keys_nodup (shelved : Shelved master) :
    ((master.map Prod.snd).map MasterRow.key).Nodup := by
  rw [shelved.keys_eq]
  exact shelved.distinct

theorem Shelved.rows_plain (shelved : Shelved master) :
    ∀ row ∈ master.map Prod.snd, PlainRow row := by
  intro row member
  obtain ⟨entry, inMaster, rfl⟩ := List.mem_map.mp member
  exact shelved.plain entry inMaster

theorem Shelved.settled (shelved : Shelved master) : Shelved (settled (master.map Prod.snd)) := by
  constructor
  · exact settled_distinct shelved.keys_nodup
  · intro entry member
    obtain ⟨row, _, rfl⟩ := List.mem_map.mp member
    rfl
  · intro entry member
    obtain ⟨row, inSorted, rfl⟩ := List.mem_map.mp member
    exact (shelved.rows_plain row ((sortRows_perm _).mem_iff.mp inSorted)).flat

/-- What is read back under a key is what was there, on one line. -/
theorem Shelved.get?_settled (shelved : Shelved master) (key : Text) :
    (Translate.settled (master.map Prod.snd)).get? key = (master.get? key).map MasterRow.flat := by
  apply Option.ext
  intro flatRow
  rw [Dict.get?_eq_some_iff shelved.settled.distinct, Option.map_eq_some_iff]
  unfold Translate.settled
  rw [List.mem_map]
  constructor
  · intro ⟨row, inSorted, same⟩
    obtain ⟨entry, inMaster, rfl⟩ := List.mem_map.mp ((sortRows_perm _).mem_iff.mp inSorted)
    have keyed := shelved.keyed entry inMaster
    cases same
    refine ⟨entry.2, ?_, rfl⟩
    rw [keyed]
    exact (Dict.get?_eq_some_iff shelved.distinct).mpr inMaster
  · intro ⟨row, found, same⟩
    have member := Dict.mem_of_get? found
    refine ⟨row, (sortRows_perm _).mem_iff.mpr (List.mem_map_of_mem member), ?_⟩
    rw [shelved.keyed _ member, same]

end Shelves

/-! ## One session more -/

/-- The master that is read back after a session. -/
def afterSession (codec : Codec) (master : Dict Text MasterRow) (session : Session) :
    Dict Text MasterRow :=
  settled ((absorb master (session.rows codec)).map Prod.snd)

section Step

variable {codec : Codec} {master : Dict Text MasterRow}

/-- `cmd_decode` after a session, and what the next one reads. -/
theorem cmdDecode_session (plain : PlainCodec codec) (shelved : Shelved master) {tsv : Option Text}
    (loaded : loadTsv tsv = some master) (session : Session) :
    cmdDecode codec (some session.dump) tsv =
        some (writeTsv ((absorb master (session.rows codec)).map Prod.snd)) ∧
      loadTsv (some (writeTsv ((absorb master (session.rows codec)).map Prod.snd))) =
        some (afterSession codec master session) ∧
      Shelved (afterSession codec master session) := by
  have absorbed := shelved.absorb (@rows_plain codec session plain)
  refine ⟨?_, ?_, absorbed.settled⟩
  · unfold cmdDecode
    rw [loaded, parseDump_dump]
    rfl
  · exact loadTsv_writeTsv absorbed.rows_plain absorbed.keys_nodup

theorem get?_afterSession (plain : PlainCodec codec) (shelved : Shelved master)
    (session : Session) (key : Text) :
    (afterSession codec master session).get? key =
      ((absorb master (session.rows codec)).get? key).map MasterRow.flat :=
  (shelved.absorb (@rows_plain codec session plain)).get?_settled key

/-- A key of the session has the merged row, on one line. -/
theorem get?_afterSession_seen (plain : PlainCodec codec) (shelved : Shelved master)
    {session : Session} {slot : StrInvEntry} (seen : slot ∈ session.seen) :
    (afterSession codec master session).get? (slotKey slot) =
      some (mergeRow (master.get? (slotKey slot)) (rowOf codec slot)).flat := by
  rw [get?_afterSession plain shelved, get?_absorb_seen seen, Option.map_some]

/-- Where a row of the new master comes from. -/
theorem afterSession_cases (plain : PlainCodec codec) (shelved : Shelved master)
    {session : Session} {key : Text} {row : MasterRow}
    (found : (afterSession codec master session).get? key = some row) :
    (∃ slot ∈ session.seen, slotKey slot = key ∧
      row = (mergeRow (master.get? key) (rowOf codec slot)).flat) ∨
    ((∀ slot ∈ session.seen, slotKey slot ≠ key) ∧
      ∃ before, master.get? key = some before ∧ row = before.flat) := by
  rw [get?_afterSession plain shelved] at found
  obtain ⟨absorbed, foundAbsorbed, rfl⟩ := Option.map_eq_some_iff.mp found
  rcases absorb_cases foundAbsorbed with ⟨slot, seen, named, rfl⟩ | ⟨absent, foundBefore⟩
  · exact Or.inl ⟨slot, seen, named, rfl⟩
  · exact Or.inr ⟨absent, absorbed, foundBefore, rfl⟩

/-- A key stays in the master. -/
theorem afterSession_keeps (plain : PlainCodec codec) (shelved : Shelved master)
    (session : Session) {key : Text} {old : MasterRow} (found : master.get? key = some old) :
    ∃ row, (afterSession codec master session).get? key = some row := by
  by_cases seen : ∃ slot ∈ session.seen, slotKey slot = key
  · obtain ⟨slot, inSession, rfl⟩ := seen
    exact ⟨_, get?_afterSession_seen plain shelved inSession⟩
  · refine ⟨old.flat, ?_⟩
    rw [get?_afterSession plain shelved, get?_absorb_other, found, Option.map_some]
    intro row member same
    obtain ⟨slot, inSession, rfl⟩ := mem_rows.mp member
    exact seen ⟨slot, inSession, same⟩

theorem le_count_mergeRow (known : Option MasterRow) (row : MasterRow) :
    row.count ≤ (mergeRow known row).count := by
  cases known with
  | none => exact Int.le_refl _
  | some old => exact Int.le_max_left _ _

/-- But for the count, a merged row is the row of the dump. -/
theorem mergeRow_eq (known : Option MasterRow) (row : MasterRow) :
    mergeRow known row = { row with count := (mergeRow known row).count } := by
  cases known with
  | none => rfl
  | some old => rfl

theorem LatestString.append {sessions : List Session} {key : Text} {slot : StrInvEntry}
    (latest : LatestString sessions key slot) {session : Session}
    (absent : ∀ entry ∈ session.seen, slotKey entry ≠ key) :
    LatestString (sessions ++ [session]) key slot := by
  obtain ⟨earlier, last, later, split, inLast, named, nowhere⟩ := latest
  refine ⟨earlier, last, later ++ [session], ?_, inLast, named, ?_⟩
  · rw [split, List.append_assoc, List.cons_append]
  · intro other member
    rcases List.mem_append.mp member with before | isLast
    · exact nowhere other before
    · exact List.mem_singleton.mp isLast ▸ absent

theorem Accumulates.empty : Accumulates codec [] [] := by
  constructor
  · intro key
    constructor
    · intro member
      cases member
    · intro ⟨_, member, _⟩
      cases member
  · intro key row found
    cases found
  · intro key row found
    cases found
  · intro key row found
    cases found

section OneMore

variable {sessions : List Session} (accumulates : Accumulates codec sessions master)
  (plain : PlainCodec codec) (shelved : Shelved master) (session : Session)

include accumulates

theorem Accumulates.known {key : Text} {other : Session} (member : other ∈ sessions)
    {slot : StrInvEntry} (seen : slot ∈ other.seen) (named : slotKey slot = key) :
    ∃ old, master.get? key = some old := by
  rw [← Option.isSome_iff_exists, Dict.isSome_get?_iff]
  exact (accumulates.keys key).mpr ⟨other, member, slot, seen, named⟩

include plain shelved

theorem Accumulates.keys_step (key : Text) :
    key ∈ (afterSession codec master session).map Prod.fst ↔
      ∃ other ∈ sessions ++ [session], ∃ slot ∈ other.seen, slotKey slot = key := by
  rw [← Dict.isSome_get?_iff, Option.isSome_iff_exists]
  constructor
  · intro ⟨row, found⟩
    rcases afterSession_cases plain shelved found with
      ⟨slot, seen, named, _⟩ | ⟨_, before, foundBefore, _⟩
    · exact ⟨session, List.mem_append_right _ List.mem_cons_self, slot, seen, named⟩
    · have inMaster := (Dict.isSome_get?_iff master key).mp (by rw [foundBefore]; rfl)
      obtain ⟨other, member, rest⟩ := (accumulates.keys key).mp inMaster
      exact ⟨other, List.mem_append_left _ member, rest⟩
  · intro ⟨other, member, slot, seen, named⟩
    rcases List.mem_append.mp member with before | isLast
    · obtain ⟨old, foundOld⟩ := accumulates.known before seen named
      exact afterSession_keeps plain shelved session foundOld
    · cases List.mem_singleton.mp isLast
      exact ⟨_, named ▸ get?_afterSession_seen plain shelved seen⟩

theorem Accumulates.highest_step {key : Text} {row : MasterRow}
    (found : (afterSession codec master session).get? key = some row) {other : Session}
    (member : other ∈ sessions ++ [session]) {slot : StrInvEntry} (seen : slot ∈ other.seen)
    (named : slotKey slot = key) : (slot.count.toNat : Int) ≤ row.count := by
  rcases afterSession_cases plain shelved found with
    ⟨entry, inSession, entryNamed, rfl⟩ | ⟨absent, before, foundBefore, rfl⟩
  · rcases List.mem_append.mp member with earlier | isLast
    · obtain ⟨old, foundOld⟩ := accumulates.known earlier seen named
      rw [foundOld]
      exact Int.le_trans (accumulates.highest key old foundOld other earlier slot seen named)
        (Int.le_max_right _ _)
    · cases List.mem_singleton.mp isLast
      rw [slots_inj seen inSession (named.trans entryNamed.symm)]
      exact le_count_mergeRow _ _
  · rcases List.mem_append.mp member with earlier | isLast
    · exact accumulates.highest key before foundBefore other earlier slot seen named
    · cases List.mem_singleton.mp isLast
      exact absurd named (absent slot seen)

theorem Accumulates.reached_step {key : Text} {row : MasterRow}
    (found : (afterSession codec master session).get? key = some row) :
    ∃ other ∈ sessions ++ [session], ∃ slot ∈ other.seen, slotKey slot = key ∧
      row.count = (slot.count.toNat : Int) := by
  have last : session ∈ sessions ++ [session] := List.mem_append_right _ List.mem_cons_self
  rcases afterSession_cases plain shelved found with
    ⟨entry, inSession, entryNamed, rfl⟩ | ⟨_, before, foundBefore, rfl⟩
  · cases foundOld : master.get? key with
    | none => exact ⟨session, last, entry, inSession, entryNamed, rfl⟩
    | some old =>
        show ∃ other ∈ sessions ++ [session], ∃ slot ∈ other.seen, slotKey slot = key ∧
          max (entry.count.toNat : Int) old.count = (slot.count.toNat : Int)
        rcases Int.le_total old.count (entry.count.toNat : Int) with low | high
        · rw [Int.max_eq_left low]
          exact ⟨session, last, entry, inSession, entryNamed, rfl⟩
        · rw [Int.max_eq_right high]
          obtain ⟨other, member, rest⟩ := accumulates.reached key old foundOld
          exact ⟨other, List.mem_append_left _ member, rest⟩
  · obtain ⟨other, member, rest⟩ := accumulates.reached key before foundBefore
    exact ⟨other, List.mem_append_left _ member, rest⟩

/-- One session more. -/
theorem Accumulates.step :
    Accumulates codec (sessions ++ [session]) (afterSession codec master session) where
  keys := accumulates.keys_step plain shelved session
  highest _ _ found _ member _ seen named :=
    accumulates.highest_step plain shelved session found member seen named
  reached _ _ found := accumulates.reached_step plain shelved session found
  latest key row found := by
    rcases afterSession_cases plain shelved found with
      ⟨entry, inSession, entryNamed, rfl⟩ | ⟨absent, before, foundBefore, rfl⟩
    · refine ⟨entry, ⟨sessions, session, [], rfl, inSession, entryNamed, ?_⟩, ?_⟩
      · intro other member
        cases member
      · rw [mergeRow_eq]
        exact ⟨rfl, rfl, rfl, rfl⟩
    · obtain ⟨slot, latest, srcHex, jp, x, y⟩ := accumulates.latest key before foundBefore
      refine ⟨slot, latest.append absent, srcHex, ?_, x, y⟩
      show flatten before.jp = _
      rw [jp, flatten_flatten]

end OneMore

end Step

/-! ## Running once more -/

theorem keys_absorb {master : Dict Text MasterRow} {rows : List MasterRow}
    (known : ∀ row ∈ rows, row.key ∈ master.map Prod.fst) :
    (absorb master rows).map Prod.fst = master.map Prod.fst := by
  induction rows generalizing master with
  | nil => rfl
  | cons row rest inductionHypothesis =>
      have kept : (record master row).map Prod.fst = master.map Prod.fst :=
        Dict.keys_set_of_mem (known row List.mem_cons_self) _
      show (absorb (record master row) rest).map Prod.fst = _
      rw [inductionHypothesis, kept]
      intro other member
      rw [kept]
      exact known other (List.mem_cons_of_mem _ member)

theorem flat_of_get?_settled {rows : List MasterRow} {key : Text} {row : MasterRow}
    (found : (settled rows).get? key = some row) : row.flat = row := by
  obtain ⟨source, _, same⟩ := List.mem_map.mp (Dict.mem_of_get? found)
  cases same
  exact source.flat_flat

/-- Merging a row once more changes nothing. -/
theorem mergeRow_again (known : Option MasterRow) (row : MasterRow) :
    (mergeRow (some (mergeRow known row).flat) row).flat = (mergeRow known row).flat := by
  have count : max row.count (mergeRow known row).count = (mergeRow known row).count :=
    Int.max_eq_right (le_count_mergeRow known row)
  show MasterRow.flat { row with count := max row.count (mergeRow known row).count } = _
  rw [count, ← mergeRow_eq]

section Again

variable {codec : Codec} {master : Dict Text MasterRow} {session : Session}

theorem keys_absorb_session (known : ∀ slot ∈ session.seen, slotKey slot ∈ master.map Prod.fst) :
    (absorb master (session.rows codec)).map Prod.fst = master.map Prod.fst := by
  apply keys_absorb
  intro row member
  obtain ⟨slot, seen, rfl⟩ := mem_rows.mp member
  exact known slot seen

/-- The dump of the session that wrote the file leaves it as it is. -/
theorem writeTsv_again (plain : PlainCodec codec) (shelved : Shelved master) :
    writeTsv ((absorb (afterSession codec master session) (session.rows codec)).map Prod.snd) =
      writeTsv ((absorb master (session.rows codec)).map Prod.snd) := by
  have next : Shelved (afterSession codec master session) :=
    (shelved.absorb (@rows_plain codec session plain)).settled
  have known : ∀ slot ∈ session.seen,
      slotKey slot ∈ (afterSession codec master session).map Prod.fst := by
    intro slot seen
    rw [← Dict.isSome_get?_iff, get?_afterSession_seen plain shelved seen]
    rfl
  have pointwise : List.Forall₂ (fun before after : MasterRow => before = after.flat)
      ((afterSession codec master session).map Prod.snd)
      ((absorb (afterSession codec master session) (session.rows codec)).map Prod.snd) := by
    apply Dict.forall₂_of_keys_eq (keys_absorb_session known) next.distinct
    intro key before after found foundAfter
    rcases absorb_cases foundAfter with ⟨slot, inSession, rfl, rfl⟩ | ⟨_, same⟩
    · rw [get?_afterSession_seen plain shelved inSession] at found ⊢
      rw [← Option.some.inj found, mergeRow_again]
    · rw [found] at same
      rw [← Option.some.inj same]
      exact (flat_of_get?_settled found).symm
  apply writeTsv_of_flat_eq
  have rows := List.forall₂_map_right_iff.mpr pointwise
  rw [List.forall₂_eq_eq_eq] at rows
  exact rows.symm

/-- The dump of any known session moves coordinates only. -/
theorem onlyMoved_again (plain : PlainCodec codec) (shelved : Shelved master)
    {sessions : List Session} (accumulates : Accumulates codec sessions master)
    {source : List MasterRow} (isSettled : master = settled source) (member : session ∈ sessions) :
    List.Forall₂ (OnlyMoved session) (master.map Prod.snd)
      ((afterSession codec master session).map Prod.snd) := by
  have known : ∀ slot ∈ session.seen, slotKey slot ∈ master.map Prod.fst := fun slot seen =>
    (accumulates.keys _).mpr ⟨session, member, slot, seen, rfl⟩
  have sameKeys := @keys_absorb_session codec master session known
  have unmoved : (((absorb master (session.rows codec)).map Prod.snd).map MasterRow.count) =
      (sortRows source).map MasterRow.count := by
    have counts : List.Forall₂ (fun before after : MasterRow => before.count = after.count)
        (master.map Prod.snd) ((absorb master (session.rows codec)).map Prod.snd) := by
      apply Dict.forall₂_of_keys_eq sameKeys shelved.distinct
      intro key before after found foundAfter
      rcases absorb_cases foundAfter with ⟨slot, inSession, rfl, rfl⟩ | ⟨_, same⟩
      · have atMost := accumulates.highest _ before found session member slot inSession rfl
        rw [found]
        exact (Int.max_eq_right atMost).symm
      · rw [found] at same
        rw [Option.some.inj same]
    have equal : ((absorb master (session.rows codec)).map Prod.snd).map MasterRow.count =
        (master.map Prod.snd).map MasterRow.count := by
      symm
      rw [← List.forall₂_eq_eq_eq]
      exact List.forall₂_map_left_iff.mpr (List.forall₂_map_right_iff.mpr counts)
    have sourceCounts : (master.map Prod.snd).map MasterRow.count =
        (sortRows source).map MasterRow.count := by
      rw [isSettled, rows_settled, List.map_map]
      rfl
    exact equal.trans sourceCounts
  have keysAfter : (afterSession codec master session).map Prod.fst = master.map Prod.fst := by
    unfold afterSession
    rw [keys_settled, sortRows_of_counts unmoved,
      (shelved.absorb (@rows_plain codec session plain)).keys_eq, sameKeys]
  apply Dict.forall₂_of_keys_eq keysAfter shelved.distinct
  intro key before after found foundAfter
  have named : before.key = key := shelved.keyed _ (Dict.mem_of_get? found)
  rcases afterSession_cases plain shelved foundAfter with
    ⟨slot, seen, slotNamed, rfl⟩ | ⟨_, same, foundSame, rfl⟩
  · rw [found]
    constructor
    · exact slotNamed.trans named.symm
    · exact Int.max_eq_right
        (accumulates.highest key before found session member slot seen slotNamed)
    · intro agrees
      have sameHex := agrees slot seen (slotNamed.trans named.symm)
      obtain ⟨latest, _, srcHex, jp, _⟩ := accumulates.latest key before found
      have sameBytes := hexText_inj (sameHex.trans srcHex)
      refine ⟨sameHex, ?_⟩
      rw [jp, ← sameBytes]
      rfl
  · rw [found] at foundSame
    cases foundSame
    rw [isSettled] at found
    rw [flat_of_get?_settled found]
    exact ⟨rfl, rfl, fun _ => ⟨rfl, rfl⟩⟩

end Again

/-! ## Runs -/

section Runs

variable {codec : Codec}

/-- What holds of the file after every session. -/
structure Kept (codec : Codec) (sessions : List Session) (tsv : Option Text)
    (master : Dict Text MasterRow) : Prop where
  loaded : loadTsv tsv = some master
  shelved : Shelved master
  accumulates : Accumulates codec sessions master
  written : ∃ source, master = settled source ∧ ∀ file, tsv = some file → file = writeTsv source

theorem runSessions_append (sessions : List Session) (session : Session) {tsv : Option Text}
    (ran : runSessions codec sessions = some tsv) :
    runSessions codec (sessions ++ [session]) =
      (cmdDecode codec (some session.dump) tsv).map some := by
  unfold runSessions at ran ⊢
  rw [List.foldlM_append, ran, Option.bind_eq_bind, Option.bind_some, List.foldlM_cons]
  exact bind_pure _

/-- Every sequence of sessions ends with a file that holds what they saw. -/
theorem exists_kept (plain : PlainCodec codec) (sessions : List Session) :
    ∃ tsv master, runSessions codec sessions = some tsv ∧ Kept codec sessions tsv master := by
  induction sessions using List.reverseRecOn with
  | nil =>
      refine ⟨none, [], rfl, rfl, Shelved.empty, Accumulates.empty, [], rfl, ?_⟩
      intro file none
      cases none
  | append_singleton sessions session inductionHypothesis =>
      obtain ⟨tsv, master, ran, kept⟩ := inductionHypothesis
      obtain ⟨decoded, loaded, shelved⟩ :=
        cmdDecode_session plain kept.shelved kept.loaded session
      refine ⟨_, afterSession codec master session, ?_, loaded, shelved,
        kept.accumulates.step plain kept.shelved session, _, rfl, ?_⟩
      · rw [runSessions_append sessions session ran, decoded]
        rfl
      · intro file same
        exact (Option.some.inj same).symm

/-- The strings of all sessions are in the file, with nothing else, and running once more on a
known dump moves coordinates at most; on the last one it leaves the file as it is. -/
theorem runSessions_accumulate (codec : Codec) (plain : PlainCodec codec)
    (sessions : List Session) :
    ∃ tsv master, runSessions codec sessions = some tsv ∧ loadTsv tsv = some master ∧
      Accumulates codec sessions master ∧
      (∀ file, tsv = some file → file = writeTsv (master.map Prod.snd)) ∧
      (∀ session ∈ sessions, ∃ again masterAgain,
        cmdDecode codec (some session.dump) tsv = some again ∧
          loadTsv (some again) = some masterAgain ∧
          List.Forall₂ (OnlyMoved session) (master.map Prod.snd) (masterAgain.map Prod.snd)) ∧
      ∀ session, sessions.getLast? = some session →
        ∃ file, tsv = some file ∧ cmdDecode codec (some session.dump) (some file) = some file := by
  obtain ⟨tsv, master, ran, kept⟩ := exists_kept plain sessions
  obtain ⟨source, isSettled, written⟩ := kept.written
  refine ⟨tsv, master, ran, kept.loaded, kept.accumulates, ?_, ?_, ?_⟩
  · intro file isFile
    rw [written file isFile, isSettled]
    apply (writeTsv_of_flat_eq _).symm
    rw [rows_settled, List.map_map]
    exact List.map_congr_left fun row _ => row.flat_flat
  · intro session member
    obtain ⟨decoded, loaded, _⟩ := cmdDecode_session plain kept.shelved kept.loaded session
    exact ⟨_, _, decoded, loaded,
      onlyMoved_again plain kept.shelved kept.accumulates isSettled member⟩
  · intro session last
    obtain ⟨earlier, rfl⟩ := List.getLast?_eq_some_iff.mp last
    obtain ⟨tsvBefore, masterBefore, ranBefore, keptBefore⟩ := exists_kept plain earlier
    obtain ⟨decoded, loaded, shelved⟩ :=
      cmdDecode_session plain keptBefore.shelved keptBefore.loaded session
    rw [runSessions_append earlier session ranBefore, decoded] at ran
    refine ⟨_, (Option.some.inj ran).symm, ?_⟩
    rw [(cmdDecode_session plain shelved loaded session).1,
      writeTsv_again plain keptBefore.shelved]

/-- What the codec makes of ASCII and of one letter. -/
def letterCodec : Codec
  | [] => some []
  | 0xA4 :: 0xA2 :: rest => (letterCodec rest).map ('あ' :: ·)
  | byte :: rest =>
      if byte < 0x80 then (letterCodec rest).map (Char.ofNat byte.toNat :: ·) else none

theorem letterCodec_plain : PlainCodec letterCodec := by
  have table : ∀ n : Fin 256, isTextByte (UInt8.ofNat n) = true → UInt8.ofNat n < 0x80 →
      isLineBoundary (Char.ofNat (UInt8.ofNat n).toNat) = true →
        Char.ofNat (UInt8.ofNat n).toNat = '\n' := by
    decide +kernel
  intro bytes
  induction bytes using letterCodec.induct with
  | case1 =>
      intro text _ decoded symbol member
      cases decoded
      cases member
  | case2 rest inductionHypothesis =>
      intro text texts decoded symbol member boundary
      rw [letterCodec] at decoded
      obtain ⟨later, decodedLater, rfl⟩ := Option.map_eq_some_iff.mp decoded
      rcases List.mem_cons.mp member with rfl | inLater
      · exact absurd boundary (by decide)
      · exact inductionHypothesis later (fun c inside => texts c (List.mem_cons_of_mem _
          (List.mem_cons_of_mem _ inside))) decodedLater symbol inLater boundary
  | case3 byte rest notLetter small inductionHypothesis =>
      intro text texts decoded symbol member boundary
      rw [letterCodec.eq_3 byte rest notLetter, if_pos small] at decoded
      obtain ⟨later, decodedLater, rfl⟩ := Option.map_eq_some_iff.mp decoded
      rcases List.mem_cons.mp member with rfl | inLater
      · have isAscii := table ⟨byte.toNat, byte.toNat_lt⟩
        simp only [UInt8.ofNat_toNat] at isAscii
        exact isAscii (texts byte List.mem_cons_self) small boundary
      · exact inductionHypothesis later (fun c inside => texts c (List.mem_cons_of_mem _ inside))
          decodedLater symbol inLater boundary
  | case4 byte rest notLetter large =>
      intro text _ decoded
      rw [letterCodec.eq_3 byte rest notLetter, if_neg large] at decoded
      cases decoded

/-- A letter, a line break and an `A`. -/
def letterBytes : Bytes := [0xA4, 0xA2, 0x0A, 0x41]

/-- They drawn so many times, last at these coordinates. -/
def letterSession (count : UInt32) (a0 a1 : UInt16) : Session where
  inv := ⟨[⟨pmsFnv1a letterBytes, letterBytes, a0, a1, count, true⟩], 0⟩
  distinct := List.nodup_singleton _
  filled slot member := by
    rw [List.mem_singleton.mp member]
    exact List.cons_ne_nil _ _
  texts slot member := by
    rw [List.mem_singleton.mp member]
    exact List.all_eq_true.mp (by decide : letterBytes.all isTextByte = true)

theorem runSessions_accumulate_letter :
    runSessions letterCodec [letterSession 7 12 200, letterSession 2 30 40] =
        some (some (Text.unlines '\n' [tsvHeader,
          "0x2EA004A4A63E0674\t7\t30\t40\ta4a20a41\tあ\\nA".toList])) ∧
      ∃ tsv master,
        runSessions letterCodec [letterSession 7 12 200, letterSession 2 30 40] = some tsv ∧
          loadTsv tsv = some master ∧
          Accumulates letterCodec [letterSession 7 12 200, letterSession 2 30 40] master := by
  obtain ⟨tsv, master, ran, loaded, accumulates, _⟩ := runSessions_accumulate letterCodec
    letterCodec_plain [letterSession 7 12 200, letterSession 2 30 40]
  exact ⟨by decide +kernel, tsv, master, ran, loaded, accumulates⟩

end Runs

end StadiumRecomp.Translate
