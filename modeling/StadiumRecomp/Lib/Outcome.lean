import Mathlib.Data.List.Forall2
import Mathlib.Data.List.ReduceOption

/-!
Contract: computations that may fail, over lists.

Owns: what a successful `bind` and a successful `mapM` of `Except` say about their parts, and
the `mapM` of `Option` that succeeds everywhere.
-/

set_option autoImplicit false

namespace StadiumRecomp.Lib.Outcome

variable {ε α β : Type}

/-- A successful sequence succeeded at its first part. -/
theorem bind_eq_ok {first : Except ε α} {next : α → Except ε β} {result : β}
    (succeeded : (first >>= next) = .ok result) :
    ∃ value, first = .ok value ∧ next value = .ok result := by
  cases first with
  | error error => cases succeeded
  | ok value => exact ⟨value, rfl, succeeded⟩

/-- A successful `mapM` succeeded at every element, in order. -/
theorem mapM_eq_ok {step : α → Except ε β} {inputs : List α} {outputs : List β}
    (succeeded : inputs.mapM step = .ok outputs) :
    List.Forall₂ (fun input output => step input = .ok output) inputs outputs := by
  induction inputs generalizing outputs with
  | nil =>
      rw [List.mapM_nil] at succeeded
      cases succeeded
      exact .nil
  | cons input inputs inductionHypothesis =>
      rw [List.mapM_cons] at succeeded
      obtain ⟨output, headOk, rest⟩ := bind_eq_ok succeeded
      obtain ⟨tail, tailOk, finish⟩ := bind_eq_ok rest
      cases finish
      exact .cons headOk (inductionHypothesis tailOk)

/-- A `mapM` succeeds when it does at every element. -/
theorem exists_mapM_eq_ok {step : α → Except ε β} {good : β → Prop} {inputs : List α}
    (each : ∀ input ∈ inputs, ∃ output, step input = .ok output ∧ good output) :
    ∃ outputs, inputs.mapM step = .ok outputs ∧ ∀ output ∈ outputs, good output := by
  induction inputs with
  | nil => exact ⟨[], List.mapM_nil, fun output member => absurd member List.not_mem_nil⟩
  | cons input inputs inductionHypothesis =>
      obtain ⟨output, headOk, headGood⟩ := each input List.mem_cons_self
      obtain ⟨outputs, tailOk, tailGood⟩ := inductionHypothesis
        (fun other member => each other (List.mem_cons_of_mem _ member))
      refine ⟨output :: outputs, ?_, ?_⟩
      · rw [List.mapM_cons, headOk]
        show (inputs.mapM step >>= _) = _
        rw [tailOk]
        rfl
      · intro other member
        rcases List.mem_cons.mp member with rfl | inside
        · exact headGood
        · exact tailGood other inside

/-- Every output of a successful `mapM` comes from some input. -/
theorem exists_of_mem_mapM {step : α → Except ε β} {inputs : List α}
    {outputs : List β} (succeeded : inputs.mapM step = .ok outputs) {output : β}
    (member : output ∈ outputs) : ∃ input ∈ inputs, step input = .ok output := by
  have related := mapM_eq_ok succeeded
  clear succeeded
  induction related with
  | nil => simp at member
  | cons headOk _ inductionHypothesis =>
      rcases List.mem_cons.mp member with rfl | tail
      · exact ⟨_, by simp, headOk⟩
      · obtain ⟨input, inside, ok⟩ := inductionHypothesis tail
        exact ⟨input, by simp [inside], ok⟩

/-- Every input of a successful `mapM` has an output. -/
theorem exists_output_of_mem {step : α → Except ε β} {inputs : List α}
    {outputs : List β} (succeeded : inputs.mapM step = .ok outputs) {input : α}
    (member : input ∈ inputs) : ∃ output ∈ outputs, step input = .ok output := by
  have related := mapM_eq_ok succeeded
  clear succeeded
  induction related with
  | nil => simp at member
  | cons headOk _ inductionHypothesis =>
      rcases List.mem_cons.mp member with rfl | tail
      · exact ⟨_, by simp, headOk⟩
      · obtain ⟨output, inside, ok⟩ := inductionHypothesis tail
        exact ⟨output, by simp [inside], ok⟩

/-- When `step` can only return `value`, a successful `mapM` is a map. -/
theorem mapM_eq_map {γ : Type} {step : α → Except ε β} {write : γ → α}
    {value : γ → β} {inputs : List γ} {outputs : List β}
    (succeeded : (inputs.map write).mapM step = .ok outputs)
    (only : ∀ input ∈ inputs, ∀ output, step (write input) = .ok output →
      output = value input) : outputs = inputs.map value := by
  have related := mapM_eq_ok succeeded
  rw [List.forall₂_map_left_iff] at related
  clear succeeded
  induction related with
  | nil => rfl
  | cons headOk _ inductionHypothesis =>
      rw [List.map_cons, only _ (by simp) _ headOk,
        inductionHypothesis (fun input member => only input (by simp [member]))]

/-! ## Options -/

section Options

variable {γ : Type} {step : α → Option β} {write : γ → α} {inputs : List γ}

theorem mapM_map_eq_some {read : γ → β}
    (reads : ∀ input ∈ inputs, step (write input) = some (read input)) :
    (inputs.map write).mapM step = some (inputs.map read) := by
  induction inputs with
  | nil => rfl
  | cons input rest inductionHypothesis =>
      rw [List.map_cons, List.mapM_cons, reads input List.mem_cons_self,
        inductionHypothesis fun other member => reads other (List.mem_cons_of_mem _ member)]
      rfl

theorem reduceOption_map_some : (inputs.map fun input => some (write input)).reduceOption =
    inputs.map write := by
  induction inputs with
  | nil => rfl
  | cons input rest inductionHypothesis =>
      rw [List.map_cons, List.reduceOption_cons_of_some, inductionHypothesis]
      rfl

end Options

end StadiumRecomp.Lib.Outcome
