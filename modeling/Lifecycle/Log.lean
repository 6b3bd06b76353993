import Lifecycle.Event

/-! The log records of the library. Each constructor is one thing worth a record; level, target,
text and fields are functions of it. -/

namespace Lifecycle

inductive LogLevel
  | debug
  | info
  | warn
  | error
  deriving DecidableEq, Repr

def LogLevel.name : LogLevel → String
  | debug => "DEBUG"
  | info => "INFO"
  | warn => "WARN"
  | error => "ERROR"

inductive LogTarget
  | dispatch
  | transport
  | telemetry
  deriving DecidableEq, Repr

def LogTarget.name : LogTarget → String
  | dispatch => "lifeline::dispatch"
  | transport => "lifeline::transport"
  | telemetry => "lifeline::telemetry"

inductive LogRecord
  | succeeded (command : Command) (source target : State)
  | refused (command : Command) (state : State) (failure : Failure)
  | handlerFailed (command : Command) (source : State) (failure : Failure)
  | arranged (state : State)
  | aborted (command : Command)
  | undecodable
  | replyAbandoned
  | event (e : Event)
  | sinkNotReady (reason : String)
  | sinkRejected (reason : String)
  deriving DecidableEq, Repr

namespace LogRecord

def level : LogRecord → LogLevel
  | succeeded .. => .debug
  | refused .. => .warn
  | handlerFailed .. => .error
  | arranged _ => .debug
  | aborted _ => .error
  | undecodable => .warn
  | replyAbandoned => .debug
  | event (.transitioned ..) => .info
  | event (.rejected ..) => .warn
  | event (.handlerFailed ..) => .warn
  | event (.healthChecked _) => .info
  | sinkNotReady _ => .debug
  | sinkRejected _ => .debug

def target : LogRecord → LogTarget
  | succeeded .. | refused .. | handlerFailed .. | arranged _ | aborted _ => .dispatch
  | undecodable | replyAbandoned => .transport
  | event _ | sinkNotReady _ | sinkRejected _ => .telemetry

def text : LogRecord → String
  | succeeded .. => "dispatch succeeded"
  | refused .. => "dispatch rejected"
  | handlerFailed .. => "handler failed"
  | arranged _ => "state arranged"
  | aborted _ => "dispatch task aborted"
  | undecodable => "failed to decode frame"
  | replyAbandoned => "caller abandoned dispatch reply"
  | event (.transitioned ..) => "transitioned"
  | event (.rejected ..) => "rejected"
  | event (.handlerFailed ..) => "handler failed"
  | event (.healthChecked _) => "health checked"
  | sinkNotReady _ => "sink not ready"
  | sinkRejected _ => "sink rejected event"

def fields : LogRecord → List (String × String)
  | succeeded command source target | event (.transitioned command source target) =>
    [("command", command.name), ("from", source.name), ("to", target.name)]
  | refused command state failure =>
    [("command", command.name), ("state", state.name), ("error", failure.message)]
  | handlerFailed command source failure =>
    [("command", command.name), ("from", source.name), ("error", failure.message)]
  | arranged state => [("to", state.name)]
  | aborted command => [("command", command.name)]
  | undecodable | replyAbandoned => []
  | event (.rejected command state kind) =>
    [("command", command.name), ("state", state.name), ("kind", kind.name)]
  | event (.handlerFailed command source) => [("command", command.name), ("from", source.name)]
  | event (.healthChecked state) => [("state", state.name)]
  | sinkNotReady reason | sinkRejected reason => [("error", reason)]

end LogRecord

end Lifecycle
