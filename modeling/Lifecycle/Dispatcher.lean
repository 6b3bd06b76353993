import Lifecycle.Config
import Lifecycle.Decision
import Lifecycle.Recording
import Lifecycle.Registry
import Lifecycle.Text.Quoted

/-! A dispatcher: a policy, the handlers, the published status, and what records outcomes. -/

namespace Lifecycle

structure Dispatcher where
  policy : Policy
  registry : Registry
  ledger : Ledger
  telemetry : Telemetry
  status : Status := {}

namespace Dispatcher

def state (d : Dispatcher) : State := d.status.state

/-- Whether a command is admitted in the present state: where it leads by default and the handler
that runs, or why it is refused before any handler runs. -/
def prepare (d : Dispatcher) (command : Command) : Except Failure (State × Handler) :=
  match d.policy.evaluate d.state command with
  | .rejected => .error (.illegalTransition command d.state)
  | .allowed next => match d.registry.handler? command with
    | none => .error (.unhandledCommand command)
    | some handler => .ok (next, handler)

def optionText : Option String → String
  | none => "None"
  | some s => "Some(" ++ Text.quoted s ++ ")"

def text (d : Dispatcher) : String :=
  "Dispatcher \x7b policy: TransitionPolicy \x7b restart_from_error: " ++
    toString d.policy.restartFromError ++ " \x7d, registry: " ++ d.registry.text ++
    ", status: Status \x7b state: " ++ d.status.state.word ++ ", last_error: " ++
    optionText d.status.lastError ++ " \x7d \x7d"

def serviceText (d : Dispatcher) : String := "DispatchService \x7b inner: " ++ d.text ++ " \x7d"

def ofRegistry (registry : Registry) : Dispatcher where
  policy := Config.policy {}
  registry
  ledger := { history := .withCapacity defaultHistoryCapacity }
  telemetry := { sink := .discard }

end Dispatcher

end Lifecycle
