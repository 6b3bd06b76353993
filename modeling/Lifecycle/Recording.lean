import Lifecycle.History
import Lifecycle.Sink

/-! What records the outcome of a dispatch: a history of results, then a sink of events. Neither
ever waits: a call of either is over at once. It may break down at any of its calls, and then it
panics and records nothing. -/

namespace Lifecycle

/-- A history that breaks down at the calls for which `breaks` has a payload; the first call is
number one. -/
structure Ledger where
  history : History
  calls : Nat := 0
  breaks : Nat → Option Payload := fun _ => none

def Ledger.breakdown? (l : Ledger) : Option Payload := l.breaks (l.calls + 1)

def Ledger.append (l : Ledger) (r : Result) : Ledger × Except Payload Unit :=
  let n := l.calls + 1
  match l.breakdown? with
  | some payload => ({ l with calls := n }, .error payload)
  | none => ({ l with history := l.history.append r, calls := n }, .ok ())

/-- A sink that breaks down at the calls for which `breaks` has a payload. -/
structure Telemetry where
  sink : Sink
  calls : Nat := 0
  breaks : Nat → Option Payload := fun _ => none

def Telemetry.emit (t : Telemetry) (e : Event) : Telemetry × Except Payload (List LogRecord) :=
  let n := t.calls + 1
  match t.breaks n with
  | some payload => ({ t with calls := n }, .error payload)
  | none =>
    let (sink, logs) := t.sink.emit e
    ({ t with sink, calls := n }, .ok logs)

end Lifecycle
