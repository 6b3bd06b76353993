import Lifecycle.Failure

/-! The events that observers receive, one for every recorded dispatch. -/

namespace Lifecycle

inductive Event
  | transitioned (command : Command) (source target : State)
  | rejected (command : Command) (state : State) (kind : FailureKind)
  | handlerFailed (command : Command) (source : State)
  | healthChecked (state : State)
  deriving DecidableEq, Repr

def Event.text : Event → String
  | transitioned command source target =>
    s!"Transitioned({command.name}: {source.name} -> {target.name})"
  | rejected command state kind => s!"Rejected({command.name} in {state.name}, {kind.name})"
  | handlerFailed command source => s!"HandlerFailed({command.name} from {source.name})"
  | healthChecked state => s!"HealthChecked({state.name})"

end Lifecycle
