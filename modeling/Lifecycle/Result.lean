import Lifecycle.Failure

/-! The record that every dispatch returns. -/

namespace Lifecycle

structure Result where
  command : Command
  previous : State
  resulting : State
  success : Bool
  errorMessage : Option String := none
  errorKind : Option FailureKind := none
  deriving DecidableEq, Repr

namespace Result

def succeeded (command : Command) (previous resulting : State) : Result :=
  { command, previous, resulting, success := true }

def failed (command : Command) (previous resulting : State) (failure : Failure) : Result :=
  { command, previous, resulting, success := false,
    errorMessage := some failure.message, errorKind := some failure.kind }

def changedState (r : Result) : Bool := r.previous != r.resulting

end Result

end Lifecycle
