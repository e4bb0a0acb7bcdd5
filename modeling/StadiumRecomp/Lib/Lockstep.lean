import Mathlib.Data.Prod.Lex
import Mathlib.Logic.Relation

/-!
Contract: a client that sends one request at a time to a server, over two streams.

Owns: the symbols in flight, the steps of both parties in any order, and that what the client has
exchanged is what the server answers to one whole request after the other.

Does not own: what a request is, and how the server comes to its answer.
-/

set_option autoImplicit false

namespace StadiumRecomp.Lib.Lockstep

variable {α τ : Type}

/-! ## The link -/

inductive Phase (α : Type) where
  | idle
  /-- A request has been sent; `gained` has been read of the answer. -/
  | waiting (request gained : List α)
  | closed
deriving DecidableEq, Repr

/-- Both parties, and what is between them. -/
structure Link (α τ : Type) where
  /-- None once the server is gone. -/
  server : Option τ
  up : List α
  down : List α
  phase : Phase α
  exchanges : List (List α × List α)

/-- The link as it is opened. -/
def opened (server : τ) : Link α τ := ⟨some server, [], [], .idle, []⟩

section Steps

-- `take` is what the server does with a symbol, if it does not go, and `stop` ends an answer.
variable (take : τ → α → Option (τ × List α)) (stop : α)

/-- A step of the server, or of a client that waits. -/
inductive Receive : Link α τ → Link α τ → Prop
  | deliver {server next : τ} {symbol : α} {answer up down : List α} {phase : Phase α}
      {exchanges : List (List α × List α)} (taken : take server symbol = some (next, answer)) :
      Receive ⟨some server, symbol :: up, down, phase, exchanges⟩
        ⟨some next, up, down ++ answer, phase, exchanges⟩
  | exit {server : τ} {symbol : α} {up down : List α} {phase : Phase α}
      {exchanges : List (List α × List α)} (gone : take server symbol = none) :
      Receive ⟨some server, symbol :: up, down, phase, exchanges⟩
        ⟨none, [], down, phase, exchanges⟩
  | read {server : Option τ} {symbol : α} {up down request gained : List α}
      {exchanges : List (List α × List α)} (other : symbol ≠ stop) :
      Receive ⟨server, up, symbol :: down, .waiting request gained, exchanges⟩
        ⟨server, up, down, .waiting request (gained ++ [symbol]), exchanges⟩
  | finish {server : Option τ} {up down request gained : List α}
      {exchanges : List (List α × List α)} :
      Receive ⟨server, up, stop :: down, .waiting request gained, exchanges⟩
        ⟨server, up, down, .idle, exchanges ++ [(request, gained)]⟩
  | close {up request gained : List α} {exchanges : List (List α × List α)} :
      Receive ⟨none, up, [], .waiting request gained, exchanges⟩
        ⟨none, up, [], .closed, exchanges⟩

/-- A step, or a request of an idle client. -/
inductive Step (allowed : List α → Prop) : Link α τ → Link α τ → Prop
  | send {server : Option τ} {up down : List α} {exchanges : List (List α × List α)}
      {request : List α} (may : allowed request) :
      Step allowed ⟨server, up, down, .idle, exchanges⟩
        ⟨server, up ++ request, down, .waiting request [], exchanges⟩
  | receive {link next : Link α τ} (received : Receive take stop link next) :
      Step allowed link next

end Steps

/-- A client that may do less does nothing else. -/
theorem Step.mono {take : τ → α → Option (τ × List α)} {stop : α}
    {narrower allowed : List α → Prop} (sub : ∀ request, narrower request → allowed request)
    {link next : Link α τ} (step : Step take stop narrower link next) :
    Step take stop allowed link next := by
  cases step with
  | send may => exact .send (sub _ may)
  | receive received => exact .receive received

/-! ## One request -/

section Answers

variable (take : τ → α → Option (τ × List α)) (stop : α)

/-- The server behind symbols to which it says nothing. -/
def hearing (server : τ) : List α → Option τ
  | [] => some server
  | symbol :: rest =>
      match take server symbol with
      | some (next, []) => hearing next rest
      | _ => none

/-- The server hears a request out; then it is gone, or gives one whole answer. -/
structure Answers (server : τ) (request : List α) (outcome : Option (τ × List α)) : Prop where
  heard : ∃ front last before, request = front ++ [last] ∧ hearing take server front = some before ∧
    take before last = outcome.map fun result => (result.1, result.2 ++ [stop])
  whole : ∀ result ∈ outcome, stop ∉ result.2

/-- One request after the other, with their answers. -/
def Served (server : τ) : List (List α × List α) → τ → Prop
  | [], last => last = server
  | exchange :: rest, last => ∃ next,
      Answers take stop server exchange.1 (some (next, exchange.2)) ∧ Served next rest last

variable {take stop}

theorem hearing_append (server : τ) (front rest : List α) :
    hearing take server (front ++ rest) =
      (hearing take server front).bind fun next => hearing take next rest := by
  induction front generalizing server with
  | nil => rfl
  | cons symbol front inductionHypothesis =>
      rw [List.cons_append, hearing, hearing]
      cases taken : take server symbol with
      | none => rfl
      | some result =>
          obtain ⟨next, answer⟩ := result
          cases answer with
          | nil => exact inductionHypothesis next
          | cons _ _ => rfl

theorem Served.snoc {server middle last : τ} {exchanges : List (List α × List α)}
    (served : Served take stop server exchanges middle) {request answer : List α}
    (answers : Answers take stop middle request (some (last, answer))) :
    Served take stop server (exchanges ++ [(request, answer)]) last := by
  induction exchanges generalizing server with
  | nil =>
      obtain rfl : middle = server := served
      exact ⟨last, answers, rfl⟩
  | cons exchange exchanges inductionHypothesis =>
      obtain ⟨next, first, rest⟩ := served
      exact ⟨next, first, inductionHypothesis rest⟩

/-- The server decides what a request gets. -/
theorem Answers.unique {server : τ} {request : List α} {left right : Option (τ × List α)}
    (first : Answers take stop server request left)
    (second : Answers take stop server request right) : left = right := by
  obtain ⟨front, last, before, rfl, heard, taken⟩ := first.heard
  obtain ⟨otherFront, otherLast, otherBefore, same, otherHeard, otherTaken⟩ := second.heard
  obtain ⟨rfl, ends⟩ := List.append_inj' same rfl
  obtain rfl := List.singleton_inj.mp ends
  rw [heard] at otherHeard
  obtain rfl := Option.some.inj otherHeard
  rw [taken] at otherTaken
  refine Option.map_injective ?_ otherTaken
  intro result other equal
  obtain ⟨next, whole⟩ := Prod.mk.inj equal
  exact Prod.ext next (List.append_cancel_right whole)

/-- A stream that is one answer ends at its first stop. -/
theorem eq_of_append_stop {gained down answer : List α} (plain : stop ∉ answer)
    (whole : gained ++ stop :: down = answer ++ [stop]) : gained = answer ∧ down = [] := by
  rcases List.append_eq_append_iff.mp whole with ⟨more, rfl, rest⟩ | ⟨more, rfl, rest⟩
  · cases more with
    | nil => exact ⟨(List.append_nil _).symm, (List.cons.inj rest).2⟩
    | cons symbol more =>
        obtain rfl := (List.cons.inj rest).1
        exact absurd (List.mem_append_right _ List.mem_cons_self) plain
  · cases more with
    | nil => exact ⟨List.append_nil _, (List.cons.inj rest).2.symm⟩
    | cons symbol more => exact absurd (List.cons.inj rest).2 (by simp)

/-- A symbol in front of others is taken without a word, the last one with the answer. -/
theorem Answers.take_eq {base server : τ} {front rest : List α} {symbol : α}
    {outcome : Option (τ × List α)}
    (answers : Answers take stop base (front ++ symbol :: rest) outcome)
    (heard : hearing take base front = some server) :
    (rest ≠ [] ∧ ∃ next, take server symbol = some (next, []) ∧
      hearing take base (front ++ [symbol]) = some next) ∨
    (rest = [] ∧ take server symbol =
      outcome.map fun result => (result.1, result.2 ++ [stop])) := by
  obtain ⟨before, last, middle, same, listened, taken⟩ := answers.heard
  rcases List.eq_nil_or_concat rest with rfl | ⟨inner, final, rfl⟩
  · obtain ⟨rfl, ends⟩ := List.append_inj' same rfl
    obtain rfl := List.singleton_inj.mp ends
    rw [heard] at listened
    obtain rfl := Option.some.inj listened
    exact Or.inr ⟨rfl, taken⟩
  · left
    have longer : front ++ [symbol] ++ inner = before := by
      have shape : (front ++ [symbol] ++ inner) ++ [final] = before ++ [last] := by
        rw [← same]
        simp
      exact (List.append_inj' shape rfl).1
    rw [← longer, hearing_append] at listened
    obtain ⟨next, reached, _⟩ := Option.bind_eq_some_iff.mp listened
    refine ⟨by simp, next, ?_, reached⟩
    rw [hearing_append, heard] at reached
    have one : hearing take server [symbol] = some next := reached
    unfold hearing at one
    cases result : take server symbol with
    | none =>
        rw [result] at one
        cases one
    | some result' =>
        obtain ⟨after, answer⟩ := result'
        rw [result] at one
        cases answer with
        | nil =>
            obtain rfl : after = next := Option.some.inj one
            rfl
        | cons _ _ => cases one

end Answers

/-! ## Every run -/

section Sound

variable (take : τ → α → Option (τ × List α)) (stop : α)

/-- What holds of a link in every run: one request is in flight, in one of the two streams. -/
inductive Sound (first : τ) : Link α τ → Prop
  | idle {server : τ} {exchanges : List (List α × List α)}
      (served : Served take stop first exchanges server) :
      Sound first ⟨some server, [], [], .idle, exchanges⟩
  | asking {base server : τ} {front rest : List α} {outcome : Option (τ × List α)}
      {exchanges : List (List α × List α)} (served : Served take stop first exchanges base)
      (answers : Answers take stop base (front ++ rest) outcome)
      (heard : hearing take base front = some server) (left : rest ≠ []) :
      Sound first ⟨some server, rest, [], .waiting (front ++ rest) [], exchanges⟩
  | answering {base server : τ} {request gained down answer : List α}
      {exchanges : List (List α × List α)} (served : Served take stop first exchanges base)
      (answers : Answers take stop base request (some (server, answer)))
      (whole : gained ++ down = answer ++ [stop]) (left : down ≠ []) :
      Sound first ⟨some server, [], down, .waiting request gained, exchanges⟩
  | gone {base : τ} {request : List α} {exchanges : List (List α × List α)}
      (served : Served take stop first exchanges base)
      (answers : Answers take stop base request none) :
      Sound first ⟨none, [], [], .waiting request [], exchanges⟩
  | closed {base : τ} {exchanges : List (List α × List α)}
      (served : Served take stop first exchanges base) :
      Sound first ⟨none, [], [], .closed, exchanges⟩

end Sound

section Runs

variable {take : τ → α → Option (τ × List α)} {stop : α} {allowed : List α → Prop}

theorem Sound.receive {first : τ} {link next : Link α τ} (sound : Sound take stop first link)
    (received : Receive take stop link next) : Sound take stop first next := by
  cases sound with
  | idle served => cases received
  | @asking base server front rest outcome exchanges served answers heard left =>
      cases received with
      | @deliver _ after symbol answer up _ _ _ taken =>
          rcases answers.take_eq heard with ⟨more, reached, silent, further⟩ | ⟨rfl, ends⟩
          · rw [taken] at silent
            cases silent
            have shape : front ++ symbol :: up = front ++ [symbol] ++ up := by simp
            rw [shape] at answers ⊢
            exact .asking served answers further more
          · rw [taken] at ends
            cases outcome with
            | none => cases ends
            | some result =>
                cases ends
                exact .answering served answers rfl (by simp)
      | @exit _ symbol up _ _ _ gone =>
          rcases answers.take_eq heard with ⟨_, reached, silent, _⟩ | ⟨rfl, ends⟩
          · rw [gone] at silent
            cases silent
          · rw [gone] at ends
            cases outcome with
            | none => exact .gone served answers
            | some result => cases ends
  | @answering base server request gained down answer exchanges served answers whole left =>
      have plain : stop ∉ answer := answers.whole _ rfl
      cases received with
      | @read _ symbol _ down _ _ _ other =>
          have shape : gained ++ [symbol] ++ down = answer ++ [stop] := by
            rw [List.append_assoc]
            exact whole
          refine .answering served answers shape ?_
          rintro rfl
          rw [List.append_nil] at shape
          exact other (List.singleton_inj.mp (List.append_inj' shape rfl).2)
      | @finish _ _ down _ _ _ =>
          obtain ⟨rfl, rfl⟩ := eq_of_append_stop plain whole
          exact .idle (served.snoc answers)
  | gone served answers =>
      cases received
      exact .closed served
  | closed served => cases received

/-- A server that is good hears every request out, and stays good. -/
structure Discipline (take : τ → α → Option (τ × List α)) (stop : α) (allowed : List α → Prop)
    (good : τ → Prop) : Prop where
  nonempty : ∀ request, allowed request → request ≠ []
  answers : ∀ server request, good server → allowed request →
    ∃ outcome, Answers take stop server request outcome
  kept : ∀ server request result, good server →
    Answers take stop server request (some result) → good result.1

variable {good : τ → Prop}

theorem Served.keeps (discipline : Discipline take stop allowed good) {first last : τ}
    {exchanges : List (List α × List α)} (served : Served take stop first exchanges last)
    (start : good first) : good last := by
  induction exchanges generalizing first with
  | nil =>
      obtain rfl : last = first := served
      exact start
  | cons exchange exchanges inductionHypothesis =>
      obtain ⟨next, answers, rest⟩ := served
      exact inductionHypothesis rest (discipline.kept _ _ _ start answers)

/-- The client sends what it may. -/
theorem allowed_of_steps {first : τ} {link : Link α τ}
    (steps : Relation.ReflTransGen (Step take stop allowed) (opened first) link) :
    (∀ exchange ∈ link.exchanges, allowed exchange.1) ∧
      ∀ request gained, link.phase = .waiting request gained → allowed request := by
  induction steps with
  | refl => exact ⟨fun _ member => absurd member List.not_mem_nil, fun _ _ other => by cases other⟩
  | tail _ step inductionHypothesis =>
      obtain ⟨finished, current⟩ := inductionHypothesis
      cases step with
      | send may => exact ⟨finished, fun _ _ same => by cases same; exact may⟩
      | receive received =>
          cases received with
          | deliver taken => exact ⟨finished, current⟩
          | exit gone => exact ⟨finished, current⟩
          | read other => exact ⟨finished, fun _ _ same => by cases same; exact current _ _ rfl⟩
          | close => exact ⟨finished, fun _ _ other => by cases other⟩
          | finish =>
              refine ⟨fun exchange member => ?_, fun _ _ other => by cases other⟩
              rcases List.mem_append.mp member with older | newest
              · exact finished exchange older
              · rw [List.mem_singleton.mp newest]
                exact current _ _ rfl

/-- Every link that is reached is sound. -/
theorem sound_of_steps (discipline : Discipline take stop allowed good) {first : τ}
    (start : good first) {link : Link α τ}
    (steps : Relation.ReflTransGen (Step take stop allowed) (opened first) link) :
    Sound take stop first link := by
  induction steps with
  | refl => exact .idle rfl
  | tail _ step sound =>
      cases step with
      | receive received => exact sound.receive received
      | @send server up down exchanges request may =>
          cases sound with
          | @idle server _ served =>
              obtain ⟨outcome, answers⟩ :=
                discipline.answers server request (served.keeps discipline start) may
              have whole : Answers take stop server ([] ++ request) outcome := answers
              exact .asking served whole rfl (discipline.nonempty request may)

/-- A client that waits is not stuck. -/
theorem Sound.progress {first : τ} {link : Link α τ} (sound : Sound take stop first link)
    {request gained : List α} (waiting : link.phase = .waiting request gained) :
    ∃ next, Receive take stop link next := by
  cases sound with
  | idle served => cases waiting
  | @asking base server front rest outcome exchanges served answers heard left =>
      obtain ⟨symbol, up, rfl⟩ := List.exists_cons_of_ne_nil left
      cases taken : take server symbol with
      | none => exact ⟨_, .exit taken⟩
      | some result => exact ⟨_, .deliver taken⟩
  | @answering base server request gained down answer exchanges served answers whole left =>
      obtain ⟨symbol, down, rfl⟩ := List.exists_cons_of_ne_nil left
      by_cases ends : symbol = stop
      · subst ends
        exact ⟨_, .finish⟩
      · exact ⟨_, .read ends⟩
  | gone served answers => exact ⟨_, .close⟩
  | closed served => cases waiting

/-- What is left to do before the next request. -/
def remaining (link : Link α τ) : Lex (Nat × Nat) :=
  toLex (link.up.length, link.down.length +
    match link.phase with
    | .waiting _ _ => 1
    | _ => 0)

/-- Without a new request the parties come to an end. -/
theorem receive_wellFounded :
    WellFounded fun next link : Link α τ => Receive take stop link next := by
  refine Subrelation.wf ?_ (InvImage.wf remaining wellFounded_lt)
  intro next link received
  show remaining next < remaining link
  cases received with
  | deliver taken => exact Prod.Lex.left _ _ (Nat.lt_succ_self _)
  | exit gone => exact Prod.Lex.left _ _ (Nat.succ_pos _)
  | read other => exact Prod.Lex.right _ (Nat.lt_succ_self _)
  | finish => exact Prod.Lex.right _ (by simp only [List.length_cons]; omega)
  | close => exact Prod.Lex.right _ (Nat.succ_pos _)

/-! ## A run for all that is served -/

theorem steps_of_hearing {server next : τ} {front rest : List α} {phase : Phase α}
    {exchanges : List (List α × List α)} (heard : hearing take server front = some next) :
    Relation.ReflTransGen (Step take stop allowed)
      ⟨some server, front ++ rest, [], phase, exchanges⟩
      ⟨some next, rest, [], phase, exchanges⟩ := by
  induction front generalizing server with
  | nil =>
      obtain rfl := Option.some.inj heard
      exact .refl
  | cons symbol front inductionHypothesis =>
      unfold hearing at heard
      cases taken : take server symbol with
      | none =>
          rw [taken] at heard
          cases heard
      | some result =>
          obtain ⟨after, answer⟩ := result
          rw [taken] at heard
          cases answer with
          | nil => exact .head (.receive (.deliver taken)) (inductionHypothesis heard)
          | cons _ _ => cases heard

theorem steps_of_answer {server : Option τ} {up request gained answer : List α}
    {exchanges : List (List α × List α)} (plain : stop ∉ answer) :
    Relation.ReflTransGen (Step take stop allowed)
      ⟨server, up, answer ++ [stop], .waiting request gained, exchanges⟩
      ⟨server, up, [], .idle, exchanges ++ [(request, gained ++ answer)]⟩ := by
  induction answer generalizing gained with
  | nil =>
      rw [List.append_nil]
      exact .single (.receive .finish)
  | cons symbol answer inductionHypothesis =>
      have other : symbol ≠ stop := fun same => plain (same ▸ List.mem_cons_self)
      have rest := @inductionHypothesis (gained ++ [symbol])
        fun member => plain (List.mem_cons_of_mem _ member)
      rw [List.append_assoc] at rest
      exact .head (.receive (.read other)) rest

/-- What can be served is served in some run. -/
theorem steps_of_served {first middle last : τ} {before exchanges : List (List α × List α)}
    (served : Served take stop middle exchanges last)
    (may : ∀ exchange ∈ exchanges, allowed exchange.1)
    (steps : Relation.ReflTransGen (Step take stop allowed) (opened first)
      ⟨some middle, [], [], .idle, before⟩) :
    Relation.ReflTransGen (Step take stop allowed) (opened first)
      ⟨some last, [], [], .idle, before ++ exchanges⟩ := by
  induction exchanges generalizing middle before with
  | nil =>
      obtain rfl : last = middle := served
      rwa [List.append_nil]
  | cons exchange exchanges inductionHypothesis =>
      obtain ⟨next, answers, rest⟩ := served
      obtain ⟨front, symbol, server, isRequest, heard, taken⟩ := answers.heard
      have asked := steps.tail (.send (may exchange List.mem_cons_self))
      rw [List.nil_append, isRequest] at asked
      have listened := asked.trans (steps_of_hearing heard)
      have answered := (listened.tail (.receive (.deliver taken))).trans
        (steps_of_answer (answers.whole _ rfl))
      rw [← isRequest] at answered
      have more := inductionHypothesis rest (fun other member => may other (.tail _ member)) answered
      rwa [List.append_assoc] at more

end Runs

end StadiumRecomp.Lib.Lockstep
