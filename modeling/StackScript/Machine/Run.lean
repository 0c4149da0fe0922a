import StackScript.Machine.Step

/-!
Runs of the machine. A script need not end, so a run is given a number of steps to
wait for its end; more patience never changes how a run ends.
-/

namespace StackScript

variable {σ : Type}

/-- How far a run has come. -/
inductive Run (σ : Type) where
  | ended (m : Machine σ) (report : Array Diagnostic)
  | going (m : Machine σ)
  deriving DecidableEq

namespace Run

def machine : Run σ → Machine σ
  | ended m _ => m
  | going m => m

/-- What is to be told: at most one error and its notes. -/
def report : Run σ → Array Diagnostic
  | ended _ report => report
  | going _ => #[]

end Run

namespace Machine

/-- Takes up to so many steps. -/
def proceed (s : Setting σ) : Nat → Machine σ → Run σ
  | 0, m => .going m
  | patience + 1, m =>
    match m.step s with
    | .next m => proceed s patience m
    | .finished m => .ended m #[]
    | .failed m report => .ended m report

/-- Starts code from its first instruction. Code that does not pass its check is not
run at all. -/
def run (s : Setting σ) (patience : Nat) (m : Machine σ) : Run σ :=
  match s.code.check with
  | .error fault =>
    .ended m.reset #[.error (s.code.positionAt 0) .internalError [fault.message]]
  | .ok _ => proceed s patience m.reset

theorem proceed_add (s : Setting σ) (n k : Nat) (m : Machine σ) :
    proceed s (n + k) m =
      match proceed s n m with
      | .going m => proceed s k m
      | .ended m report => .ended m report := by
  induction n generalizing m with
  | zero => simp [proceed]
  | succ n ih =>
    rw [show n + 1 + k = n + k + 1 by omega, proceed, proceed]
    cases m.step s with
    | next m => exact ih m
    | finished m => rfl
    | failed m report => rfl

end Machine

end StackScript
