import Lifecycle.State

/-! What a component publishes at every moment: its state and the last error, as one value. -/

namespace Lifecycle

structure Status where
  state : State := .unspecified
  lastError : Option String := none
  deriving DecidableEq, Repr, Inhabited

namespace Status

def commit (_ : Status) (state : State) (lastError : Option String) : Status :=
  { state, lastError }

def recordError (s : Status) (message : String) : Status := { s with lastError := some message }

/-- Forces the state and leaves the error slot alone. -/
def arrange (s : Status) (state : State) : Status := { s with state }

end Status

end Lifecycle
