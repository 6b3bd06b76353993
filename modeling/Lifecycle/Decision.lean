import Lifecycle.Handler
import Lifecycle.Log
import Lifecycle.Result
import Lifecycle.Status

/-! How a dispatch is decided. The outcome of a handler run leads to a new state, to a refusal
that keeps the state, or to the error state; everything that a dispatch publishes follows from
that decision, the command and the state in which the command was admitted. -/

namespace Lifecycle

inductive Decision
  | commit (next : State)
  | refuse (failure : Failure)
  | fail (failure : Failure)
  deriving DecidableEq, Repr

/-- The state that a transition names. A health check may name only the state it found. -/
def Transition.resolve (command : Command) (previous fallback : State) :
    Transition → Except Failure State
  | default => .ok fallback
  | moveTo state => permitted state
  | code n => match State.ofCode n with
    | .ok state => permitted state
    | .error e => .error (.invalidCode command e.code)
where
  permitted (state : State) : Except Failure State :=
    if command = .healthCheck ∧ state ≠ previous then .error (.forbiddenOverride command state)
    else .ok state

def panicMessage (command : Command) (payload : Payload) : String :=
  let said := payload.getD "unknown panic payload"
  s!"handler for {command.name} panicked: {said}"

/-- What follows from the end of a handler run; `fallback` is where the policy leads. -/
def Outcome.decide (command : Command) (previous fallback : State) : Outcome → Decision
  | transition t => match t.resolve command previous fallback with
    | .ok next => .commit next
    | .error failure => .refuse failure
  | failed message => .fail (.handlerFailure command message)
  | panicked payload => .fail (.handlerFailure command (panicMessage command payload))

namespace Decision

def result (command : Command) (previous : State) : Decision → Result
  | commit next => .succeeded command previous next
  | refuse failure => .failed command previous previous failure
  | fail failure => .failed command previous .error failure

/-- The status afterwards. A successful health check changes nothing. -/
def status (command : Command) (before : Status) : Decision → Status
  | commit next => if command = .healthCheck then before else before.commit next none
  | refuse failure => before.recordError failure.message
  | fail failure => before.commit .error (some failure.message)

def event (command : Command) (previous : State) : Decision → Event
  | commit next =>
    if command = .healthCheck then .healthChecked previous else .transitioned command previous next
  | refuse failure => .rejected command previous failure.kind
  | fail _ => .handlerFailed command previous

def log (command : Command) (previous : State) : Decision → LogRecord
  | commit next => .succeeded command previous next
  | refuse failure => .refused command previous failure
  | fail failure => .handlerFailed command previous failure

@[simp] theorem command_result (c : Command) (s : State) (d : Decision) :
    (d.result c s).command = c := by cases d <;> rfl

@[simp] theorem previous_result (c : Command) (s : State) (d : Decision) :
    (d.result c s).previous = s := by cases d <;> rfl

end Decision

end Lifecycle
