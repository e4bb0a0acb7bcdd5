import StadiumRecomp.Hook.Discovery
import StadiumRecomp.Lib.SeenLog

/-!
Contract: what `xlate_discovery` writes over any sequence of calls.

Owns: the calls with what each of them finds, the log they leave, the keys that different
findings share, and when every observed string is logged exactly once.

Does not own: what one call looks at.
-/

set_option autoImplicit false

namespace StadiumRecomp.Hook

open StadiumRecomp.Lib
open StadiumRecomp.Guest
open StadiumRecomp.Translate

/-! ## Runs -/

/-- A call of `xlate_discovery`, in whatever state the other globals are. -/
structure DiscoveryCall where
  world : World
  ctx : Context
  pc : UInt32

/-- The table and the log before the first call. -/
def Discovery.initial : Discovery := ⟨[], [], false⟩

def Discovery.step (discovery : Discovery) (call : DiscoveryCall) : Discovery :=
  (xlateDiscovery { call.world with discovery } call.ctx call.pc).discovery

def discoverAll (calls : List DiscoveryCall) : Discovery :=
  calls.foldl Discovery.step .initial

/-- A watched string behind a source of a traced function. -/
structure Triple where
  pc : UInt32
  watch : Nat
  source : Nat
deriving DecidableEq, Repr

namespace Triple

def key (triple : Triple) : UInt64 := watchKey triple.pc triple.watch triple.source

/-- The line is one of the triple's. -/
def isLine (triple : Triple) : DiscoveryLine → Bool
  | .watch watch pc source _ => watch = triple.watch ∧ pc = triple.pc ∧ source = triple.source
  | _ => false

end Triple

/-- The call runs at the triple's address, and its string stands behind its source. -/
def DiscoveryCall.Observes (call : DiscoveryCall) (triple : Triple) : Prop :=
  call.pc = triple.pc ∧
    ∃ string ∈ watchStrings[triple.watch]?,
      ∃ pointer ∈ (discoverySources call.world.rdram call.ctx)[triple.source]?,
        guestPrefixEq call.world.rdram pointer string = true

def Observed (calls : List DiscoveryCall) (triple : Triple) : Prop :=
  ∃ call ∈ calls, call.Observes triple

/-- Every observed triple has exactly one line in the log. -/
def LogsOnce (calls : List DiscoveryCall) : Prop :=
  ∀ triple, Observed calls triple → (discoverAll calls).log.countP triple.isLine = 1

/-! ## Findings -/

/-- What a call finds, each finding under its key. -/
def DiscoveryCall.findings (call : DiscoveryCall) : List (UInt64 × DiscoveryLine) :=
  watchFindings call.world.rdram call.ctx call.pc ++
    longTextFindings call.world.rdram call.ctx call.pc ++
      if call.pc = 0x80055CE0 ∨ call.pc = 0x8001A920 ∨ call.pc = 0x8001AC3C then
        pcLogFindings call.world.rdram call.ctx call.pc
      else []

def findings (calls : List DiscoveryCall) : List (UInt64 × DiscoveryLine) :=
  calls.flatMap DiscoveryCall.findings

/-- The room of `g_disc_seen`. -/
def kDiscSeen : Nat := 128

/-- An observed triple with a key among the first ones is the first finding under it; any other
is found only once. -/
def KeepsApart (calls : List DiscoveryCall) : Prop :=
  ∀ triple, Observed calls triple →
    if triple.key ∈ SeenLog.held kDiscSeen (findings calls) then
      ∃ line ∈ SeenLog.firstLine triple.key (findings calls), triple.isLine line = true
    else (findings calls).countP (fun finding => triple.isLine finding.2) = 1

/-- A finding is a watched string under its key, or a text. -/
theorem finding_cases {call : DiscoveryCall} {finding : UInt64 × DiscoveryLine}
    (found : finding ∈ call.findings) :
    (∃ watch source registers,
      finding = (watchKey call.pc watch source, .watch watch call.pc source registers)) ∨
      (∃ pc source ra text, finding.2 = .longText pc source ra text) ∨
        ∃ pc source value ra text, finding.2 = .pcLog pc source value ra text := by
  unfold DiscoveryCall.findings at found
  rw [List.mem_append, List.mem_append] at found
  rcases found with (watched | long) | logged
  · obtain ⟨watch, _, atWatch⟩ := List.mem_flatMap.mp watched
    obtain ⟨source, _, atSource⟩ := List.mem_filterMap.mp atWatch
    split at atSource
    · cases atSource
      exact Or.inl ⟨_, _, _, rfl⟩
    · cases atSource
  · obtain ⟨source, _, atSource⟩ := List.mem_filterMap.mp long
    obtain ⟨text, _, isLong⟩ := Option.bind_eq_some_iff.mp atSource
    split at isLong
    · cases isLong
    · cases isLong
      exact Or.inr (Or.inl ⟨_, _, _, _, rfl⟩)
  · split at logged
    · obtain ⟨source, _, atSource⟩ := List.mem_filterMap.mp logged
      obtain ⟨text, _, isLogged⟩ := Option.map_eq_some_iff.mp atSource
      cases isLogged
      exact Or.inr (Or.inr ⟨_, _, _, _, _, rfl⟩)
    · exact absurd logged List.not_mem_nil

/-- A line of a triple stands under the triple's key. -/
theorem key_of_isLine {calls : List DiscoveryCall} {triple : Triple} :
    ∀ finding ∈ findings calls, triple.isLine finding.2 = true → finding.1 = triple.key := by
  intro finding member isLine
  obtain ⟨call, _, found⟩ := List.mem_flatMap.mp member
  rcases finding_cases found with ⟨watch, source, registers, rfl⟩ |
    ⟨_, _, _, _, isText⟩ | ⟨_, _, _, _, _, isText⟩
  · obtain ⟨sameWatch, samePc, sameSource⟩ := of_decide_eq_true isLine
    unfold Triple.key
    rw [← sameWatch, ← samePc, ← sameSource]
  · rw [isText] at isLine
    cases isLine
  · rw [isText] at isLine
    cases isLine

/-! ## The log -/

/-- A line under a key, not one of the register dump. -/
def DiscoveryLine.isFinding : DiscoveryLine → Bool
  | .regDump _ => false
  | .fontState _ _ => false
  | _ => true

/-- The table and the lines that stand in the log under a key. -/
def Discovery.view (discovery : Discovery) : SeenLog UInt64 DiscoveryLine :=
  ⟨discovery.seen, discovery.log.filter DiscoveryLine.isFinding⟩

theorem isFinding_of_mem {call : DiscoveryCall} :
    ∀ finding ∈ call.findings, finding.2.isFinding = true := by
  intro finding found
  rcases finding_cases found with ⟨_, _, _, rfl⟩ | ⟨_, _, _, _, isText⟩ | ⟨_, _, _, _, _, isText⟩
  · rfl
  · rw [isText]
    rfl
  · rw [isText]
    rfl

/-- One finding is one entry of the log. -/
theorem view_find {discovery : Discovery} {finding : UInt64 × DiscoveryLine}
    (isFinding : finding.2.isFinding = true) :
    (discovery.find finding).view = discovery.view.note kDiscSeen finding := by
  unfold Discovery.find SeenLog.note
  by_cases known : finding.1 ∈ discovery.seen
  · rw [if_pos (List.contains_iff_mem.mpr known)]
    exact (if_pos known).symm
  · rw [if_neg (mt List.contains_iff_mem.mp known)]
    refine Eq.trans ?_ (if_neg known).symm
    unfold Discovery.view
    rw [List.filter_append, List.filter_singleton, isFinding]
    rfl

theorem view_foldl {found : List (UInt64 × DiscoveryLine)} (world : World)
    (areFindings : ∀ finding ∈ found, finding.2.isFinding = true) :
    (found.foldl recordFinding world).discovery.view =
      found.foldl (SeenLog.note kDiscSeen) world.discovery.view := by
  induction found generalizing world with
  | nil => rfl
  | cons finding rest inductionHypothesis =>
      rw [List.foldl_cons, List.foldl_cons,
        inductionHypothesis _ fun other member => areFindings other (List.mem_cons_of_mem _ member),
        ← view_find (areFindings finding List.mem_cons_self)]
      rfl

theorem view_dumpRegisters (world : World) (ctx : Context) :
    (dumpRegisters world ctx).discovery.view = world.discovery.view := by
  unfold dumpRegisters
  split
  · rfl
  · unfold Discovery.view
    rw [List.filter_append]
    exact congrArg (SeenLog.mk _) (List.append_nil _)

/-- A call enters what it finds. -/
theorem view_step (discovery : Discovery) (call : DiscoveryCall) :
    (discovery.step call).view = call.findings.foldl (SeenLog.note kDiscSeen) discovery.view := by
  have areFindings := @isFinding_of_mem call
  unfold Discovery.step xlateDiscovery
  unfold DiscoveryCall.findings at areFindings ⊢
  by_cases logs : call.pc = 0x80055CE0 ∨ call.pc = 0x8001A920 ∨ call.pc = 0x8001AC3C
  · simp only [if_pos logs] at areFindings ⊢
    rw [← view_foldl { call.world with discovery } areFindings]
    simp only [List.foldl_append]
    split
    · exact view_dumpRegisters _ _
    · rfl
  · simp only [if_neg logs, List.append_nil] at areFindings ⊢
    exact view_foldl { call.world with discovery } areFindings

theorem view_discoverAll (calls : List DiscoveryCall) :
    (discoverAll calls).view = SeenLog.run kDiscSeen (findings calls) := by
  unfold discoverAll SeenLog.run findings
  rw [List.foldl_flatMap]
  have from_state (discovery : Discovery) : (calls.foldl Discovery.step discovery).view =
      calls.foldl (fun state call => call.findings.foldl (SeenLog.note kDiscSeen) state)
        discovery.view := by
    induction calls generalizing discovery with
    | nil => rfl
    | cons call calls inductionHypothesis =>
        rw [List.foldl_cons, List.foldl_cons, inductionHypothesis, view_step]
  exact from_state .initial

/-- The lines of a triple in the log. -/
theorem countP_discoverAll (calls : List DiscoveryCall) (triple : Triple) :
    (discoverAll calls).log.countP triple.isLine =
      if triple.key ∈ SeenLog.held kDiscSeen (findings calls) then
        (SeenLog.firstLine triple.key (findings calls)).toList.countP triple.isLine
      else (findings calls).countP fun finding => triple.isLine finding.2 := by
  have kept : (discoverAll calls).view.log.countP triple.isLine =
      (discoverAll calls).log.countP triple.isLine := by
    unfold Discovery.view
    rw [List.countP_filter]
    apply List.countP_congr
    intro line _
    cases line <;> simp [Triple.isLine, DiscoveryLine.isFinding]
  rw [← kept, view_discoverAll]
  exact SeenLog.countP_log key_of_isLine

/-- Every observed triple is logged exactly once if and only if the keys keep them apart. -/
theorem logsOnce_iff (calls : List DiscoveryCall) : LogsOnce calls ↔ KeepsApart calls := by
  unfold LogsOnce KeepsApart
  apply forall_congr'
  intro triple
  apply imp_congr_right
  intro _
  rw [countP_discoverAll]
  split
  · cases SeenLog.firstLine triple.key (findings calls) with
    | none => simp
    | some line => simp [List.countP_singleton]
  · exact Iff.rfl

/-! ## Shared keys -/

/-- A source from 16 on reaches into the bits of the string. -/
theorem Triple.toNat_key {triple : Triple} (watch : triple.watch < 8) (source : triple.source < 32) :
    triple.key.toNat = triple.pc.toNat * 2 ^ 8 +
      ((triple.watch ||| triple.source / 16) * 2 ^ 4 + triple.source % 16) := by
  have address := triple.pc.toNat_lt
  have mixed : (triple.watch ||| triple.source / 16) < 2 ^ 3 :=
    Nat.or_lt_two_pow watch (by omega)
  have parts : triple.source = (triple.source / 16) <<< 4 ||| triple.source % 16 := by
    rw [← Nat.shiftLeft_add_eq_or_of_lt (by omega), Nat.shiftLeft_eq]
    omega
  have low : triple.watch <<< 4 ||| triple.source =
      (triple.watch ||| triple.source / 16) * 2 ^ 4 + triple.source % 16 := by
    rw [← Nat.shiftLeft_eq, Nat.shiftLeft_add_eq_or_of_lt (by omega), Nat.shiftLeft_or_distrib,
      Nat.or_assoc, ← parts]
  unfold Triple.key watchKey
  rw [UInt64.toNat_or, UInt64.toNat_or, UInt64.toNat_shiftLeft, UInt64.toNat_shiftLeft,
    UInt32.toNat_toUInt64, UInt64.toNat_ofNat', UInt64.toNat_ofNat']
  have shifts : (8 : UInt64).toNat % 64 = 8 ∧ (4 : UInt64).toNat % 64 = 4 := by decide
  rw [shifts.1, shifts.2, Nat.mod_eq_of_lt (by omega : triple.watch < 2 ^ 64),
    Nat.mod_eq_of_lt (by omega : triple.source < 2 ^ 64),
    Nat.mod_eq_of_lt (by rw [Nat.shiftLeft_eq]; omega : triple.pc.toNat <<< 8 < 2 ^ 64),
    Nat.mod_eq_of_lt (by rw [Nat.shiftLeft_eq]; omega : triple.watch <<< 4 < 2 ^ 64),
    Nat.or_assoc, low, ← Nat.shiftLeft_add_eq_or_of_lt (by omega), Nat.shiftLeft_eq]

/-- Two triples share a key exactly when they are of one address, their sources agree modulo 16,
and so do their strings once the rest of the source is mixed in. -/
theorem Triple.key_eq_iff {left right : Triple} (leftWatch : left.watch < 8)
    (leftSource : left.source < 32) (rightWatch : right.watch < 8)
    (rightSource : right.source < 32) :
    left.key = right.key ↔
      left.pc = right.pc ∧ left.source % 16 = right.source % 16 ∧
        left.watch ||| left.source / 16 = right.watch ||| right.source / 16 := by
  have leftMixed : (left.watch ||| left.source / 16) < 2 ^ 3 :=
    Nat.or_lt_two_pow leftWatch (by omega)
  have rightMixed : (right.watch ||| right.source / 16) < 2 ^ 3 :=
    Nat.or_lt_two_pow rightWatch (by omega)
  rw [← UInt64.toNat_inj, ← UInt32.toNat_inj, Triple.toNat_key leftWatch leftSource,
    Triple.toNat_key rightWatch rightSource]
  omega

/-- `もどる` behind `a0`, and `トレーナー` behind the stack slot `sp+20`. -/
def sharedKeyCall : DiscoveryCall where
  world := World.loaded
    (storeBytes (storeBytes (storeBytes (fun _ => 0) 0x1000 (watchStrings.getD 0 []))
      0x2000 (watchStrings.getD 1 [])) 0x3020 [0x80, 0x00, 0x10, 0x00]) [] (fun _ => 0)
  ctx := Context.ofRegisters [(4, 0x80002000), (29, 0x80003000)]
  pc := 0x80040000

/-- The string behind `a0` is never logged. -/
theorem not_logsOnce_sharedKey : ¬ LogsOnce [sharedKeyCall] := by
  intro once
  have observed : Observed [sharedKeyCall] ⟨0x80040000, 1, 0⟩ :=
    ⟨sharedKeyCall, List.mem_singleton_self _, rfl, _, rfl, _, rfl, by decide +kernel⟩
  have suppressed : (discoverAll [sharedKeyCall]).log.countP (Triple.isLine ⟨0x80040000, 1, 0⟩) = 0 := by
    decide +kernel
  rw [once _ observed] at suppressed
  cases suppressed

end StadiumRecomp.Hook
