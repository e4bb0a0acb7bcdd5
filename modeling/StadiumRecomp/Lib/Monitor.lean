import Mathlib.Init

/-!
Contract: a monitor that follows a record of events and rejects the first one that breaks
its discipline.

Owns: acceptance and its composition along a record.

Does not own: what is monitored.
-/

set_option autoImplicit false

namespace StadiumRecomp.Lib.Monitor

variable {σ ε : Type} {step : σ → ε → Option σ}

/-- The monitor accepts the events and goes from one state to another. -/
def Accepts (step : σ → ε → Option σ) (first : σ) (events : List ε) (last : σ) : Prop :=
  events.foldlM step first = some last

theorem Accepts.nil (status : σ) : Accepts step status [] status := rfl

theorem Accepts.single {first last : σ} {event : ε} (accepted : step first event = some last) :
    Accepts step first [event] last := by
  unfold Accepts
  rw [List.foldlM_cons, accepted]
  rfl

theorem Accepts.append {first middle last : σ} {left right : List ε}
    (front : Accepts step first left middle) (back : Accepts step middle right last) :
    Accepts step first (left ++ right) last := by
  unfold Accepts at *
  rw [List.foldlM_append, front]
  exact back

end StadiumRecomp.Lib.Monitor
