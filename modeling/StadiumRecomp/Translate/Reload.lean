import StadiumRecomp.Translate.Loader

/-!
Contract: the reload check over any history of `translations.json`.

Owns: the loader's recorded time and flags, one check, the content last read, and when
a run of checks keeps the table.

Does not own: the table an opened file yields, and how often a check is made.
-/

set_option autoImplicit false

namespace StadiumRecomp.Translate

open StadiumRecomp.Lib

/-! ## One check -/

/-- `translations.json` at a check: absent, or present with its modification time and
the content an attempt to open it gives, if it can be opened. -/
inductive FileState where
  | absent
  | present (time : Int) (content : Option Bytes)
deriving DecidableEq, Repr

/-- `g_xlate`, `g_xlate_mtime`, `g_xlate_ever_loaded` and `g_xlate_armed`. -/
structure Reload where
  table : Table
  mtime : Int
  everLoaded : Bool
  armed : Bool
deriving DecidableEq, Repr

def Reload.initial : Reload := ⟨[], 0, false, false⟩

/-- `load_translations_locked` on the file as it opens: the table is cleared before. -/
def Reload.load (state : Reload) : Option Bytes → Reload
  | none => { state with table := [] }
  | some data =>
      { state with table := loadTranslations data, armed := !(loadTranslations data).isEmpty }

/-- The check finds a file it has not recorded yet. -/
def Reload.IsNew (state : Reload) (time : Int) : Prop :=
  state.everLoaded = false ∨ time ≠ state.mtime

instance (state : Reload) (time : Int) : Decidable (state.IsNew time) :=
  inferInstanceAs (Decidable (_ ∨ _))

/-- `maybe_reload_translations`. -/
def maybeReload (state : Reload) : FileState → Reload
  | .absent => { state with everLoaded := true }
  | .present time content =>
      if state.IsNew time then
        Reload.load { state with mtime := time, everLoaded := true } content
      else state

/-- The state after a run of checks. -/
def afterChecks (checks : List FileState) : Reload := checks.foldl maybeReload .initial

/-- The content a check reads, if it reads any. -/
def Reload.reads (state : Reload) : FileState → Option Bytes
  | .absent => none
  | .present time content => if state.IsNew time then content else none

/-- The content last read in a run of checks. -/
def lastRead (checks : List FileState) : Option Bytes :=
  (checks.foldl (fun (seen : Reload × Option Bytes) file =>
    (maybeReload seen.1 file, (seen.1.reads file).or seen.2)) (.initial, none)).2

/-! ## What a run keeps -/

/-- After every check the table is the content last read; a check that finds a new
time on a file it cannot open leaves the table, and the first later check that can
open the file, unchanged, loads it. -/
structure LosesNothing (checks : List FileState) : Prop where
  current : ∀ before file after, checks = before ++ file :: after →
    (afterChecks (before ++ [file])).table =
      ((lastRead (before ++ [file])).map loadTranslations).getD []
  kept : ∀ before time after, checks = before ++ .present time none :: after →
    (afterChecks before).IsNew time →
    (afterChecks (before ++ [.present time none])).table = (afterChecks before).table
  retried : ∀ before time after, checks = before ++ .present time none :: after →
    (afterChecks before).IsNew time → ∀ failures data,
    (afterChecks (before ++ .present time none ::
      (List.replicate failures (.present time none) ++ [.present time (some data)]))).table =
        loadTranslations data

/-- Every file the checks find new can be opened then. -/
def OpensWhenNew (checks : List FileState) : Prop :=
  ∀ before time content after, checks = before ++ .present time content :: after →
    (afterChecks before).IsNew time → content.isSome

theorem afterChecks_append (checks : List FileState) (file : FileState) :
    afterChecks (checks ++ [file]) = maybeReload (afterChecks checks) file := by
  unfold afterChecks
  rw [List.foldl_append, List.foldl_cons, List.foldl_nil]

theorem lastRead_append (checks : List FileState) (file : FileState) :
    lastRead (checks ++ [file]) =
      ((afterChecks checks).reads file).or (lastRead checks) := by
  have states : ∀ (checks : List FileState) (seen : Reload × Option Bytes),
      (checks.foldl (fun (seen : Reload × Option Bytes) file =>
        (maybeReload seen.1 file, (seen.1.reads file).or seen.2)) seen).1 =
          checks.foldl maybeReload seen.1 := by
    intro checks
    induction checks with
    | nil => exact fun _ => rfl
    | cons head rest inductionHypothesis => exact fun _ => inductionHypothesis _
  unfold lastRead afterChecks
  rw [List.foldl_append, List.foldl_cons, List.foldl_nil, states]

/-- A check that can open what it finds new leaves the content last read. -/
theorem table_maybeReload {state : Reload} {read : Option Bytes} {file : FileState}
    (current : state.table = (read.map loadTranslations).getD [])
    (opens : ∀ time content, file = .present time content → state.IsNew time →
      content.isSome) :
    (maybeReload state file).table =
      (((state.reads file).or read).map loadTranslations).getD [] := by
  cases file with
  | absent => exact current
  | present time content =>
      by_cases isNew : state.IsNew time
      · obtain ⟨data, rfl⟩ := Option.isSome_iff_exists.mp (opens time content rfl isNew)
        simp [maybeReload, Reload.reads, Reload.load, isNew]
      · simpa [maybeReload, Reload.reads, isNew] using current

/-- A run that opens what it finds new ends with the content last read. -/
theorem table_afterChecks {checks : List FileState} (opens : OpensWhenNew checks) :
    (afterChecks checks).table = ((lastRead checks).map loadTranslations).getD [] := by
  induction checks using List.reverseRecOn with
  | nil => rfl
  | append_singleton checks file inductionHypothesis =>
      rw [afterChecks_append, lastRead_append]
      apply table_maybeReload
      · apply inductionHypothesis
        intro before time content after shape
        exact opens before time content (after ++ [file]) (by rw [shape]; simp)
      · rintro time content rfl
        exact opens checks time content [] rfl

theorem losesNothing_of_opens {checks : List FileState} (opens : OpensWhenNew checks) :
    LosesNothing checks := by
  constructor
  · intro before file after shape
    apply table_afterChecks
    intro start time content rest early
    apply opens start time content (rest ++ after)
    rw [shape, List.append_cons, early]
    simp
  · intro before time after shape isNew
    cases opens before time none after shape isNew
  · intro before time after shape isNew
    cases opens before time none after shape isNew

/-! ## A failed open -/

/-- One entry. -/
def oneEntry : Bytes := CString.bytesOf "[\x7b\"src_hex\":\"a4a2\",\"target\":\"A\"\x7d]"

/-- A failed open empties the table and records the time, so the file is not read
again while it stays as it is. -/
theorem table_after_failure {checks : List FileState} {time : Int}
    (isNew : (afterChecks checks).IsNew time) (data : Bytes) :
    (afterChecks (checks ++ [.present time none])).table = [] ∧
      (afterChecks (checks ++ [.present time none, .present time (some data)])).table = [] := by
  have failed : afterChecks (checks ++ [.present time none]) =
      { afterChecks checks with table := [], mtime := time, everLoaded := true } := by
    rw [afterChecks_append, maybeReload, if_pos isNew]
    rfl
  have again : checks ++ [.present time none, .present time (some data)] =
      (checks ++ [.present time none]) ++ [.present time (some data)] := by simp
  constructor
  · rw [failed]
  · rw [again, afterChecks_append, failed, maybeReload, if_neg]
    simp [Reload.IsNew]

/-- A run of checks loses nothing exactly when every file it finds new can be opened
at that check. -/
theorem losesNothing_iff (checks : List FileState) :
    LosesNothing checks ↔ OpensWhenNew checks := by
  constructor
  · intro losesNothing before time content after shape isNew
    cases content with
    | some data => rfl
    | none =>
        have loaded := losesNothing.retried before time after shape isNew 0 oneEntry
        rw [List.replicate_zero, List.nil_append] at loaded
        rw [(table_after_failure isNew oneEntry).2] at loaded
        exact absurd loaded (by decide +kernel)
  · exact losesNothing_of_opens

/-- The table is gone after one failed open and stays gone. -/
theorem reload_loses_table :
    (afterChecks [.present 1 (some oneEntry)]).table = loadTranslations oneEntry ∧
      loadTranslations oneEntry ≠ [] ∧
      (afterChecks [.present 1 (some oneEntry), .present 2 none]).table = [] ∧
      (afterChecks [.present 1 (some oneEntry), .present 2 none,
        .present 2 (some oneEntry)]).table = [] ∧
      ¬ LosesNothing [.present 1 (some oneEntry), .present 2 none] := by
  refine ⟨by decide +kernel, by decide +kernel, by decide +kernel, by decide +kernel, ?_⟩
  intro losesNothing
  have kept := losesNothing.kept [.present 1 (some oneEntry)] 2 [] rfl (by decide +kernel)
  exact absurd kept (by decide +kernel)

end StadiumRecomp.Translate
