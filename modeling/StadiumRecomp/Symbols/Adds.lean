import StadiumRecomp.Symbols.ScanMissing
import StadiumRecomp.Symbols.Sizes

/-!
Contract: `function_adds.txt` over runs of the two tools that append to it.

Owns: the sizing and the output of `tools/mips_find_functions.py`, the append of
`tools/scan_missing_funcs.py`, both as steps on the file, and what the generator reads of the
file after any runs.

Does not own: the lines somebody writes by hand.
-/

set_option autoImplicit false

namespace StadiumRecomp.Mips.Setup

variable (setup : Setup)

/-! ## The output of `mips_find_functions.py` -/

/-- `functions`, with the gap seeds and what they call. -/
def functions : List Int :=
  (setup.gapSeed (setup.discover (setup.entry :: setup.known))).state.functions

/-- `all_funcs`. -/
def allFuncs : List Int := Symbols.sortedInts (setup.functions ++ setup.known).dedup

/-- `new_funcs`. -/
def newFuncs : List Int :=
  Symbols.sortedInts (setup.functions.filter (· ∉ setup.known)).dedup

/-- `nxt`: the function behind `entry`, or the end of the section. -/
def limitBehind (entry : Int) : Int :=
  (setup.allFuncs[setup.allFuncs.idxOf entry + 1]?).getD setup.bounds.hi

/-- `sized`. -/
def sized : List (Int × Int) :=
  setup.newFuncs.map fun entry => (entry, setup.funcSize entry (setup.limitBehind entry))

variable {setup}

theorem gate_of_mem_functions {vram : Int} (member : vram ∈ setup.functions) :
    setup.Gate vram := by
  obtain ⟨candidates, members, explored⟩ :=
    gapSeed_explored setup (setup.entry :: setup.known)
  exact (walked_of_mem_found explored (gapSeed_work _) (gated_of_candidates _ members) member).1

theorem mem_newFuncs {vram : Int} :
    vram ∈ setup.newFuncs ↔ vram ∈ setup.functions ∧ vram ∉ setup.known := by
  unfold newFuncs Symbols.sortedInts
  rw [List.mem_insertionSort, List.mem_dedup, List.mem_filter, decide_eq_true_iff]

theorem nodup_newFuncs : setup.newFuncs.Nodup :=
  (List.perm_insertionSort _ _).nodup_iff.mpr (List.nodup_dedup _)

/-- A function is sized up to an address behind it. -/
theorem le_limitBehind {entry : Int} (member : entry ∈ setup.functions) :
    entry ≤ setup.limitBehind entry := by
  have listed : entry ∈ setup.allFuncs := by
    unfold allFuncs Symbols.sortedInts
    rw [List.mem_insertionSort, List.mem_dedup]
    exact List.mem_append_left _ member
  unfold limitBehind
  by_cases last : setup.allFuncs.idxOf entry + 1 < setup.allFuncs.length
  · rw [List.getElem?_eq_getElem last, Option.getD_some]
    have here : setup.allFuncs.idxOf entry < setup.allFuncs.length :=
      List.idxOf_lt_length_of_mem listed
    have sorted := List.pairwise_iff_getElem.mp (Symbols.sortedInts_sorted
      (setup.functions ++ setup.known).dedup) _ _ here last (Nat.lt_succ_self _)
    have found : setup.allFuncs[setup.allFuncs.idxOf entry] = entry := List.getElem_idxOf here
    calc entry = setup.allFuncs[setup.allFuncs.idxOf entry] := found.symm
      _ ≤ _ := sorted
  · rw [List.getElem?_eq_none (Nat.le_of_not_lt last), Option.getD_none]
    exact Int.le_of_lt (gate_of_mem_functions member).1.2

theorem nonneg_of_mem_sized (start : 0 ≤ setup.bounds.vram) {entry : Int × Int}
    (member : entry ∈ setup.sized) : 0 ≤ entry.1 ∧ 0 ≤ entry.2 := by
  obtain ⟨vram, inNew, rfl⟩ := List.mem_map.mp member
  have registered := (mem_newFuncs.mp inNew).1
  have inSec : setup.bounds.vram ≤ vram := (gate_of_mem_functions registered).1.1
  have limit := le_limitBehind registered
  obtain ⟨finish, greatest, size⟩ := greatest_funcSize setup vram (setup.limitBehind vram)
  have word : vram + 4 ≤ finish := greatest.2 (Or.inl rfl)
  refine ⟨Int.le_trans start inSec, ?_⟩
  show 0 ≤ setup.funcSize vram (setup.limitBehind vram)
  rw [size]
  omega

end StadiumRecomp.Mips.Setup

namespace StadiumRecomp.Symbols

open StadiumRecomp.Lib
open StadiumRecomp.Lib.PyInt
open StadiumRecomp.Lib.PyText

/-! ## The runs -/

/-- The first number of a line. -/
def listedAdd (line : Text) : Run Int :=
  match Text.words pySpace line with
  | [] => .error .valueError
  | vram :: _ => orValueError (int0 vram)

/-- `existing_adds` of the scan, and `existing` of the finder. -/
def listedAdds : Option Text → Run (List Int)
  | none => .ok []
  | some file => (dataLines file).mapM listedAdd

def scanHeader : Text :=
  ("# --- auto-discovered by tools/scan_missing_funcs.py " ++
    "(uncovered-gap prologue scan) ---").toList

def findHeader : Text :=
  ("# --- auto-discovered by tools/mips_find_functions.py " ++
    "(recursive-descent CFG walk) ---").toList

/-- A header and lines behind what the file holds; without a line nothing is written. -/
def appendAdds (header : Text) (adds : Option Text) (lines : List Text) : Option Text :=
  if lines.isEmpty then adds
  else some (adds.getD [] ++ '\n' :: Text.unlines '\n' (header :: lines))

/-- A run of one of the tools, with what else it reads. -/
inductive AddsTool where
  | scanMissing (symbols : Text) (rom : List UInt8) (window : Int)
  | findFunctions (rom : List UInt8) (romBase : Int) (bounds : Section) (entry : Int)
      (known : Option (List RawFunction)) (reportOnly : Bool)

namespace AddsTool

/-- The adds file after a run. A run that fails has written nothing. -/
def run (adds : Option Text) : AddsTool → Option Text
  | .scanMissing symbols rom window =>
      match readSymbols symbols, listedAdds adds with
      | some layout, .ok existing =>
          appendAdds scanHeader adds ((layout.found rom window existing).map fmtHex08)
      | _, _ => adds
  | .findFunctions rom romBase bounds entry known reportOnly =>
      match Mips.Setup.read rom romBase bounds entry known, listedAdds adds with
      | .ok setup, .ok existing =>
          if reportOnly then adds
          else appendAdds findHeader adds
            ((setup.sized.filter fun entry => entry.1 ∉ existing).map sizeEntry)
      | _, _ => adds

/-! ## What a run offers -/

def header : AddsTool → Text
  | .scanMissing .. => scanHeader
  | .findFunctions .. => findHeader

/-- The entries a tool would append to an empty file: an address, and the size if one is
written. -/
def offers : AddsTool → List (Int × Option Int)
  | .scanMissing symbols rom window =>
      match readSymbols symbols with
      | some layout => (layout.missing rom window).map fun vram => (vram, none)
      | none => []
  | .findFunctions rom romBase bounds entry known reportOnly =>
      match Mips.Setup.read rom romBase bounds entry known with
      | .ok setup =>
          if reportOnly then [] else setup.sized.map fun entry => (entry.1, some entry.2)
      | .error _ => []

/-- The section of the run does not start below zero, where no address can be read back. -/
def StartsNonneg : AddsTool → Prop
  | .scanMissing symbols _ _ => ∀ layout, readSymbols symbols = some layout →
      0 ≤ layout.bounds.vram
  | .findFunctions _ _ bounds _ _ _ => 0 ≤ bounds.vram

end AddsTool

/-- The line of an offer. -/
def offerLine : Int × Option Int → Text
  | (vram, none) => fmtHex08 vram
  | (vram, some size) => sizeEntry (vram, size)

/-- What the generator reads of an offer. -/
def offeredAdd (offer : Int × Option Int) : Int × Fn :=
  (offer.1, ⟨defaultName offer.1, offer.1, offer.2.getD 0⟩)

theorem AddsTool.run_eq (tool : AddsTool) {adds : Option Text} {existing : List Int}
    (listed : listedAdds adds = .ok existing) :
    tool.run adds = appendAdds tool.header adds
      ((tool.offers.filter fun offer => offer.1 ∉ existing).map offerLine) := by
  cases tool with
  | scanMissing symbols rom window =>
      simp only [run, offers, listed]
      cases readSymbols symbols with
      | none => rfl
      | some layout =>
          simp only
          rw [layout.found_eq, List.filter_map, List.map_map]
          rfl
  | findFunctions rom romBase bounds entry known reportOnly =>
      simp only [run, offers, listed]
      cases Mips.Setup.read rom romBase bounds entry known with
      | error error => rfl
      | ok setup =>
          cases reportOnly with
          | true => rfl
          | false =>
              simp only [Bool.false_eq_true, if_false]
              rw [List.filter_map, List.map_map]
              rfl

theorem AddsTool.nodup_offers (tool : AddsTool) : (tool.offers.map Prod.fst).Nodup := by
  cases tool with
  | scanMissing symbols rom window =>
      simp only [offers]
      cases readSymbols symbols with
      | none => exact List.nodup_nil
      | some layout =>
          simp only [List.map_map]
          have same : (Prod.fst ∘ fun vram : Int => (vram, (none : Option Int))) = id := rfl
          rw [same, List.map_id]
          exact (Layout.missingFrom_increasing _).imp fun before => Int.ne_of_lt before
  | findFunctions rom romBase bounds entry known reportOnly =>
      simp only [offers]
      cases Mips.Setup.read rom romBase bounds entry known with
      | error error => exact List.nodup_nil
      | ok setup =>
          cases reportOnly with
          | true => exact List.nodup_nil
          | false =>
              have keys : (setup.sized.map fun entry => (entry.1, some entry.2)).map Prod.fst =
                  setup.newFuncs := by
                unfold Mips.Setup.sized
                rw [List.map_map, List.map_map]
                exact List.map_id _
              exact keys ▸ Mips.Setup.nodup_newFuncs

theorem AddsTool.StartsNonneg.offers {tool : AddsTool} (nonneg : tool.StartsNonneg) :
    ∀ offer ∈ tool.offers, 0 ≤ offer.1 ∧ ∀ size ∈ offer.2, 0 ≤ size := by
  intro offer member
  cases tool with
  | scanMissing symbols rom window =>
      simp only [AddsTool.offers] at member
      cases read : readSymbols symbols with
      | none =>
          rw [read] at member
          cases member
      | some layout =>
          rw [read] at member
          obtain ⟨vram, found, rfl⟩ := List.mem_map.mp member
          have start : 0 ≤ layout.bounds.vram := nonneg layout read
          exact ⟨Int.le_trans start (Layout.mem_missingFrom.mp found).1, fun _ ends => by cases ends⟩
  | findFunctions rom romBase bounds entry known reportOnly =>
      simp only [AddsTool.offers] at member
      cases read : Mips.Setup.read rom romBase bounds entry known with
      | error error =>
          rw [read] at member
          cases member
      | ok setup =>
          rw [read] at member
          cases reportOnly with
          | true => cases member
          | false =>
              obtain ⟨entry, inSized, rfl⟩ := List.mem_map.mp member
              obtain ⟨knownFns, _, same⟩ := Outcome.bind_eq_ok read
              cases same
              have both : 0 ≤ entry.1 ∧ 0 ≤ entry.2 := by
                refine Mips.Setup.nonneg_of_mem_sized ?_ inSized
                exact nonneg
              exact ⟨both.1, fun size same => Option.some.inj same ▸ both.2⟩

/-! ## Reading what was appended -/

theorem AddsTool.header_plain (tool : AddsTool) : (∃ rest, tool.header = '#' :: rest) ∧
    ∀ symbol ∈ tool.header, symbol ≠ '\n' ∧ symbol ≠ '\r' := by
  have plain := isHeaderLine_plain (show [scanHeader, findHeader].all isHeaderLine = true by decide)
  cases tool with
  | scanMissing symbols rom window => exact plain scanHeader (.head _)
  | findFunctions rom romBase bounds entry known reportOnly =>
      exact plain findHeader (.tail _ (.head _))

theorem offerLine_data (offer : Int × Option Int) : offerLine offer ≠ [] ∧
    stripComment (offerLine offer) = offerLine offer ∧
      ∀ symbol ∈ offerLine offer, symbol ≠ '\n' ∧ symbol ≠ '\r' := by
  obtain ⟨vram, size⟩ := offer
  cases size with
  | none => exact number_line_data (fmtHex08_nonempty vram) fun _ inside =>
      symbol_of_mem_fmtHex08 inside
  | some size => exact sizeEntry_data vram size

/-- The lines with data of an adds file. -/
def addLines (adds : Option Text) : List Text := (adds.map dataLines).getD []

theorem listedAdds_eq (adds : Option Text) :
    listedAdds adds = (addLines adds).mapM listedAdd := by
  cases adds <;> rfl

theorem loadAdds_eq (adds : Option Text) :
    loadAdds adds = ((addLines adds).mapM parseAddLine).map (Dict.writes []) := by
  cases adds with
  | none => rfl
  | some file =>
      unfold loadAdds addLines
      simp only [Option.map_some, Option.getD_some]
      cases (dataLines file).mapM parseAddLine <;> rfl

/-- The lines of a file after an append: those before, and the new ones. -/
theorem addLines_appendAdds (tool : AddsTool) (adds : Option Text)
    (offers : List (Int × Option Int)) :
    addLines (appendAdds tool.header adds (offers.map offerLine)) =
      addLines adds ++ offers.map offerLine := by
  unfold appendAdds
  by_cases nothing : offers = []
  · rw [nothing]
    exact (List.append_nil _).symm
  · have written : dataLines (Text.unlines '\n' (tool.header :: offers.map offerLine)) =
        offers.map offerLine := by
      have plain := tool.header_plain
      have data : ∀ line ∈ offers.map offerLine, line ≠ [] ∧ stripComment line = line ∧
          ∀ symbol ∈ line, symbol ≠ '\n' ∧ symbol ≠ '\r' := by
        intro line member
        obtain ⟨offer, _, rfl⟩ := List.mem_map.mp member
        exact offerLine_data offer
      apply dataLines_written [tool.header]
      · intro line member
        rw [List.mem_singleton.mp member]
        exact plain.1
      · intro line member
        rcases List.mem_append.mp member with header | line'
        · rw [List.mem_singleton.mp header]
          exact plain.2
        · exact (data line line').2.2
      · exact fun line member => (data line member).1
      · exact fun line member => (data line member).2.1
    rw [if_neg (by simpa using nothing)]
    show dataLines (adds.getD [] ++ '\n' :: _) = _
    rw [dataLines_append_feed, written]
    cases adds <;> rfl

theorem parseAddLine_offerLine {offer : Int × Option Int}
    (nonneg : 0 ≤ offer.1 ∧ ∀ size ∈ offer.2, 0 ≤ size) :
    parseAddLine (offerLine offer) = .ok (offeredAdd offer) := by
  obtain ⟨vram, size⟩ := offer
  have number := int0_fmtHex08_of_nonneg nonneg.1
  cases size with
  | none =>
      have word : Text.words pySpace (fmtHex08 vram) = [fmtHex08 vram] :=
        Text.words_singleton
          (fun symbol member => (plain_of_number_symbol (symbol_of_mem_fmtHex08 member)).1)
          (fmtHex08_nonempty vram)
      show parseAddLine (fmtHex08 vram) = _
      unfold parseAddLine
      rw [word]
      simp only [number]
      rfl
  | some size =>
      show parseAddLine (sizeEntry (vram, size)) = _
      unfold parseAddLine sizeEntry
      rw [words_sizeEntry]
      simp only [number, addSize, int0_fmtHex_of_nonneg (nonneg.2 size rfl)]
      rfl

/-- The generator and the tools agree on the address of a line. -/
theorem listedAdd_of_parseAddLine {line : Text} {entry : Int × Fn}
    (parsed : parseAddLine line = .ok entry) : listedAdd line = .ok entry.1 := by
  unfold parseAddLine at parsed
  unfold listedAdd
  cases words : Text.words pySpace line with
  | nil =>
      rw [words] at parsed
      cases parsed
  | cons vram rest =>
      rw [words] at parsed
      obtain ⟨number, read, afterVram⟩ := Outcome.bind_eq_ok parsed
      obtain ⟨size, _, afterSize⟩ := Outcome.bind_eq_ok afterVram
      cases afterSize
      exact read

theorem mapM_listedAdd {lines : List Text} {entries : List (Int × Fn)}
    (parsed : lines.mapM parseAddLine = .ok entries) :
    lines.mapM listedAdd = .ok (entries.map Prod.fst) := by
  induction lines generalizing entries with
  | nil =>
      cases parsed
      rfl
  | cons line lines inductionHypothesis =>
      rw [List.mapM_cons] at parsed ⊢
      obtain ⟨entry, first, afterFirst⟩ := Outcome.bind_eq_ok parsed
      obtain ⟨others, rest, same⟩ := Outcome.bind_eq_ok afterFirst
      cases same
      rw [listedAdd_of_parseAddLine first, inductionHypothesis rest]
      rfl

theorem mapM_offerLine (offers : List (Int × Option Int))
    (nonneg : ∀ offer ∈ offers, 0 ≤ offer.1 ∧ ∀ size ∈ offer.2, 0 ≤ size) :
    (offers.map offerLine).mapM parseAddLine = .ok (offers.map offeredAdd) := by
  induction offers with
  | nil => rfl
  | cons offer offers inductionHypothesis =>
      rw [List.map_cons, List.mapM_cons, parseAddLine_offerLine (nonneg _ List.mem_cons_self),
        inductionHypothesis fun other member => nonneg _ (List.mem_cons_of_mem _ member)]
      rfl

/-! ## What runs leave of the adds -/

/-- The offers at addresses that the adds do not hold. -/
def AddsTool.fresh (tool : AddsTool) (adds : Dict Int Fn) : Dict Int Fn :=
  (tool.offers.filter fun offer => adds.get? offer.1 = none).map offeredAdd

theorem AddsTool.distinct_fresh (tool : AddsTool) {adds : Dict Int Fn}
    (distinct : Dict.Distinct adds) : Dict.Distinct (adds ++ tool.fresh adds) := by
  have keys : (tool.fresh adds).map Prod.fst =
      (tool.offers.filter fun offer => adds.get? offer.1 = none).map Prod.fst := by
    unfold AddsTool.fresh
    rw [List.map_map]
    rfl
  unfold Dict.Distinct
  rw [List.map_append, List.nodup_append]
  refine ⟨distinct, ?_, ?_⟩
  · rw [keys]
    exact tool.nodup_offers.sublist (List.filter_sublist.map _)
  · rintro vram held _ offered rfl
    rw [keys] at offered
    obtain ⟨offer, kept, rfl⟩ := List.mem_map.mp offered
    have absent := of_decide_eq_true (List.mem_filter.mp kept).2
    rw [← Dict.isSome_get?_iff, absent] at held
    cases held

/-- A readable file: the tool lists the addresses that the generator reads. -/
theorem AddsTool.run_of_loaded (tool : AddsTool) {file : Option Text} {adds : Dict Int Fn}
    (loaded : loadAdds file = .ok adds) :
    tool.run file = appendAdds tool.header file
      ((tool.offers.filter fun offer => adds.get? offer.1 = none).map offerLine) := by
  rw [loadAdds_eq] at loaded
  cases parsed : (addLines file).mapM parseAddLine with
  | error error =>
      rw [parsed] at loaded
      cases loaded
  | ok entries =>
      rw [parsed] at loaded
      obtain rfl : Dict.writes [] entries = adds := Except.ok.inj loaded
      have listed : listedAdds file = .ok (entries.map Prod.fst) := by
        rw [listedAdds_eq, mapM_listedAdd parsed]
      have same : (tool.offers.filter fun offer => offer.1 ∉ entries.map Prod.fst) =
          tool.offers.filter fun offer => (Dict.writes [] entries).get? offer.1 = none := by
        refine List.filter_congr fun offer _ => decide_eq_decide.mpr ?_
        have held := Dict.isSome_get?_iff (Dict.writes [] entries) offer.1
        rw [Dict.mem_keys_writes, Option.isSome_iff_ne_none, List.map_nil] at held
        constructor
        · intro absent
          by_contra found
          exact absent ((held.mp found).resolve_left List.not_mem_nil)
        · exact fun none inside => held.mpr (Or.inr inside) none
      rw [tool.run_eq listed, same]

/-- One run: the generator reads the adds as they were, and the fresh offers behind them. -/
theorem AddsTool.loadAdds_run {tool : AddsTool} (nonneg : tool.StartsNonneg)
    {file : Option Text} {adds : Dict Int Fn} (loaded : loadAdds file = .ok adds) :
    loadAdds (tool.run file) = .ok (adds ++ tool.fresh adds) := by
  have distinct := tool.distinct_fresh (loadAdds_wellFormed loaded).1
  have written := mapM_offerLine (tool.offers.filter fun offer => adds.get? offer.1 = none)
    fun offer member => nonneg.offers offer (List.mem_filter.mp member).1
  rw [tool.run_of_loaded loaded, loadAdds_eq, addLines_appendAdds, List.mapM_append, written]
  rw [loadAdds_eq] at loaded
  cases parsed : (addLines file).mapM parseAddLine with
  | error error =>
      rw [parsed] at loaded
      cases loaded
  | ok entries =>
      rw [parsed] at loaded
      obtain rfl : Dict.writes [] entries = adds := Except.ok.inj loaded
      have twice : Dict.writes [] (entries ++ tool.fresh (Dict.writes [] entries)) =
          Dict.writes (Dict.writes [] entries) (tool.fresh (Dict.writes [] entries)) :=
        List.foldl_append
      show Except.ok (Dict.writes [] (entries ++ tool.fresh (Dict.writes [] entries))) = _
      rw [twice, Dict.writes_of_distinct distinct]

theorem AddsTool.run_of_held (tool : AddsTool) {file : Option Text} {adds : Dict Int Fn}
    (loaded : loadAdds file = .ok adds)
    (held : ∀ offer ∈ tool.offers, adds.get? offer.1 ≠ none) : tool.run file = file := by
  have nothing : (tool.offers.filter fun offer => adds.get? offer.1 = none) = [] :=
    List.filter_eq_nil_iff.mpr fun offer member => by simpa using held offer member
  rw [tool.run_of_loaded loaded, nothing]
  rfl

theorem get?_append_left {adds : Dict Int Fn} {vram : Int} (held : adds.get? vram ≠ none)
    (more : Dict Int Fn) : (adds ++ more : Dict Int Fn).get? vram ≠ none := by
  rw [Ne, Dict.get?_eq_none_iff] at held ⊢
  exact fun absent => held fun entry member => absent entry (List.mem_append_left _ member)

/-- After a run its offers are held. -/
theorem AddsTool.get?_append_fresh {tool : AddsTool} {offer : Int × Option Int}
    (offered : offer ∈ tool.offers) (adds : Dict Int Fn) :
    (adds ++ tool.fresh adds : Dict Int Fn).get? offer.1 ≠ none := by
  by_cases absent : adds.get? offer.1 = none
  · rw [Ne, Dict.get?_eq_none_iff]
    intro nowhere
    have kept : offer ∈ tool.offers.filter fun offer => adds.get? offer.1 = none :=
      List.mem_filter.mpr ⟨offered, decide_eq_true absent⟩
    exact nowhere (offeredAdd offer)
      (List.mem_append_right _ (List.mem_map_of_mem kept)) rfl
  · exact get?_append_left absent _

/-- **The adds only grow**, over any runs of the two tools: the generator reads every entry of
the file as before, behind them each offered address once, and no run that was made finds
anything when it is made again. -/
theorem adds_only_grow (tools : List AddsTool) (nonneg : ∀ tool ∈ tools, tool.StartsNonneg)
    {file : Option Text} {adds : Dict Int Fn} (loaded : loadAdds file = .ok adds) :
    ∃ appended : Dict Int Fn,
      loadAdds (tools.foldl AddsTool.run file) = .ok (adds ++ appended) ∧
      Dict.Distinct (adds ++ appended) ∧
      (∀ entry ∈ appended, ∃ tool ∈ tools, ∃ offer ∈ tool.offers, entry = offeredAdd offer) ∧
      ∀ tool ∈ tools, tool.run (tools.foldl AddsTool.run file) =
        tools.foldl AddsTool.run file := by
  have grown : ∃ appended : Dict Int Fn,
      loadAdds (tools.foldl AddsTool.run file) = .ok (adds ++ appended) ∧
      (∀ entry ∈ appended, ∃ tool ∈ tools, ∃ offer ∈ tool.offers, entry = offeredAdd offer) ∧
      ∀ tool ∈ tools, ∀ offer ∈ tool.offers, (adds ++ appended).get? offer.1 ≠ none := by
    induction tools using List.reverseRecOn with
    | nil =>
        refine ⟨[], ?_, fun _ member => absurd member List.not_mem_nil,
          fun _ member => absurd member List.not_mem_nil⟩
        rw [List.append_nil]
        exact loaded
    | append_singleton tools last inductionHypothesis =>
        obtain ⟨appended, read, offered, held⟩ := inductionHypothesis
          fun tool member => nonneg tool (List.mem_append_left _ member)
        have run := AddsTool.loadAdds_run
          (nonneg last (List.mem_append_right _ (.head _))) read
        refine ⟨appended ++ last.fresh (adds ++ appended), ?_, ?_, ?_⟩
        · rw [List.foldl_append, ← List.append_assoc]
          exact run
        · intro entry member
          rcases List.mem_append.mp member with older | newest
          · obtain ⟨tool, inTools, offer⟩ := offered entry older
            exact ⟨tool, List.mem_append_left _ inTools, offer⟩
          · obtain ⟨offer, kept, same⟩ := List.mem_map.mp newest
            exact ⟨last, List.mem_append_right _ (.head _), offer, (List.mem_filter.mp kept).1,
              same.symm⟩
        · intro tool member offer inOffers
          rw [← List.append_assoc]
          rcases List.mem_append.mp member with earlier | newest
          · exact get?_append_left (held tool earlier offer inOffers) _
          · obtain rfl := List.mem_singleton.mp newest
            exact AddsTool.get?_append_fresh inOffers _
  obtain ⟨appended, read, offered, held⟩ := grown
  exact ⟨appended, read, (loadAdds_wellFormed read).1, offered,
    fun tool member => tool.run_of_held read (held tool member)⟩

/-- A scan and a discovery over ten words with two prologues, one function known. -/
def framedTools : List AddsTool :=
  let rom : List UInt8 := [0x27, 0xBD, 0xFF, 0xE8, 0xAF, 0xBF, 0x00, 0x14, 0x03, 0xE0, 0x00, 0x08,
    0, 0, 0, 0, 0x03, 0xE0, 0x00, 0x08, 0, 0, 0, 0, 0x27, 0xBD, 0xFF, 0xE8, 0xAF, 0xBF, 0x00, 0x14,
    0x03, 0xE0, 0x00, 0x08, 0, 0, 0, 0]
  [.scanMissing (writeSymbols "text".toList 0 ⟨0, 40⟩ [⟨"main".toList, 16, 8⟩]) rom 8,
    .findFunctions rom 0 ⟨0, 40⟩ 16 none false]

theorem framedTools_startNonneg : ∀ tool ∈ framedTools, tool.StartsNonneg := by
  intro tool member
  rcases List.mem_cons.mp member with rfl | others
  · intro layout read
    have bounds : (readSymbols (writeSymbols "text".toList 0 ⟨0, 40⟩
        [⟨"main".toList, 16, 8⟩])).map Layout.bounds = some ⟨0, 40⟩ := by decide +kernel
    rw [read] at bounds
    have start := Option.some.inj bounds
    rw [start]
  · obtain rfl := List.mem_singleton.mp others
    exact Int.le_refl 0

theorem adds_only_grow_framedTools :
    ∃ appended : Dict Int Fn,
      loadAdds (framedTools.foldl AddsTool.run (some "0x18 0x8 mine".toList)) =
        .ok ([(0x18, ⟨"mine".toList, 0x18, 0x8⟩)] ++ appended) ∧
      Dict.Distinct ([(0x18, ⟨"mine".toList, 0x18, 0x8⟩)] ++ appended) ∧
      (∀ entry ∈ appended, ∃ tool ∈ framedTools, ∃ offer ∈ tool.offers,
        entry = offeredAdd offer) ∧
      ∀ tool ∈ framedTools, tool.run (framedTools.foldl AddsTool.run (some "0x18 0x8 mine".toList)) =
        framedTools.foldl AddsTool.run (some "0x18 0x8 mine".toList) :=
  adds_only_grow framedTools framedTools_startNonneg (by decide +kernel)

end StadiumRecomp.Symbols
