import Mathlib.Init

/-!
Contract: programs of labelled blocks that go to one another, with a bound on the labels a
run may pass.

Owns: the bounded run, and the relation between the labels a program comes to, which composes
and is deterministic.

Does not own: what a block does.
-/

set_option autoImplicit false

namespace StadiumRecomp.Lib.Goto

/-- Where a block leaves: for another label, or out of the program. -/
inductive Next (Label State Exit : Type) where
  | goto (label : Label) (state : State)
  | exit (reason : Exit) (state : State)

variable {Label State Exit : Type}

/-- A run that may pass so many labels; `hung` is its exit when it would pass more. -/
def run (body : Label → State → Next Label State Exit) (hung : Exit) :
    Nat → Label → State → Exit × State
  | 0, _, state => (hung, state)
  | passes + 1, label, state =>
      match body label state with
      | .goto next after => run body hung passes next after
      | .exit reason after => (reason, after)

/-- The program comes from one label to another in so many blocks. -/
inductive Goes (body : Label → State → Next Label State Exit) :
    Nat → Label → State → Label → State → Prop where
  | stay (label : Label) (state : State) : Goes body 0 label state label state
  | block {passes : Nat} {label middle last : Label} {state between after : State}
      (leaves : body label state = .goto middle between)
      (onward : Goes body passes middle between last after) :
      Goes body (passes + 1) label state last after

variable {body : Label → State → Next Label State Exit} {hung : Exit}

theorem Goes.single {label next : Label} {state after : State}
    (leaves : body label state = .goto next after) : Goes body 1 label state next after :=
  .block leaves (.stay next after)

theorem Goes.trans {first second : Nat} {label middle last : Label} {state between after : State}
    (front : Goes body first label state middle between)
    (back : Goes body second middle between last after) :
    Goes body (first + second) label state last after := by
  induction front with
  | stay => rwa [Nat.zero_add]
  | @block passes _ _ _ _ _ _ leaves _ inductionHypothesis =>
      rw [Nat.add_right_comm]
      exact .block leaves (inductionHypothesis back)

/-- A program comes to one place in so many blocks. -/
theorem Goes.deterministic {passes : Nat} {label last last' : Label} {state after after' : State}
    (left : Goes body passes label state last after)
    (right : Goes body passes label state last' after') : last = last' ∧ after = after' := by
  induction left with
  | stay =>
      cases right
      exact ⟨rfl, rfl⟩
  | block leaves _ inductionHypothesis =>
      cases right with
      | block leaves' onward =>
          rw [leaves] at leaves'
          cases leaves'
          exact inductionHypothesis onward

/-- What a run does after the labels it has come past. -/
theorem Goes.run {passes room : Nat} {label last : Label} {state after : State}
    (goes : Goes body passes label state last after) :
    Goto.run body hung (passes + room) label state = Goto.run body hung room last after := by
  induction goes with
  | stay => rw [Nat.zero_add]
  | block leaves _ inductionHypothesis =>
      rw [Nat.add_right_comm, Goto.run, leaves]
      exact inductionHypothesis

/-- A run that comes to an exit within its bound. -/
theorem Goes.run_exit {passes limit : Nat} {label last : Label} {state between after : State}
    {reason : Exit} (goes : Goes body passes label state last between)
    (leaves : body last between = .exit reason after) (room : passes < limit) :
    Goto.run body hung limit label state = (reason, after) := by
  obtain ⟨spare, rfl⟩ := Nat.exists_eq_add_of_lt room
  rw [Nat.add_assoc, goes.run, Goto.run, leaves]

end StadiumRecomp.Lib.Goto
