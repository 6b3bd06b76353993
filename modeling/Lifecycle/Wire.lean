import Lifecycle.Config
import Lifecycle.Result
import Lifecycle.Status
import Lifecycle.Args

/-! The wire form of the values that travel: how each is written as JSON and how it is read. A
record is written with its fields in order; a result leaves out the error fields it does not
have. -/

namespace Lifecycle

namespace Command

def toJson (c : Command) : Json := .string c.name

def reader : Reader Command := Reader.choice all name

end Command

namespace State

def toJson (s : State) : Json := .string s.name

def reader : Reader State := Reader.choice all name

end State

namespace FailureKind

def toJson (k : FailureKind) : Json := .string k.name

def reader : Reader FailureKind := Reader.choice all name

end FailureKind

namespace Config

def toJson (c : Config) : Json :=
  .object [("restart_from_error", .bool c.restartFromError),
    ("history_capacity", .integer c.historyCapacity)]

/-- Absent settings have their defaults, and unknown ones are refused. -/
def record : Record Config where
  title := "DispatcherConfig"
  blank := {}
  closed := true
  fields :=
    [Record.field "restart_from_error" Reader.boolean
        (fun v c => { c with restartFromError := v }) .defaulted,
     Record.field "history_capacity" Reader.size
        (fun v c => { c with historyCapacity := v }) .defaulted]

def reader : Reader Config := record.read

end Config

namespace Status

def toJson (s : Status) : Json :=
  .object [("state", s.state.toJson), ("last_error", .ofText? s.lastError)]

def record : Record Status where
  title := "Status"
  blank := {}
  fields :=
    [Record.field "state" State.reader (fun v s => { s with state := v }),
     Record.field "last_error" (Reader.optional Reader.string)
        (fun v s => { s with lastError := v }) .nullable]

def reader : Reader Status := record.read

end Status

namespace Result

def toJson (r : Result) : Json :=
  .object (
    [("command", r.command.toJson), ("previous_state", r.previous.toJson),
      ("resulting_state", r.resulting.toJson), ("success", .bool r.success)] ++
    (r.errorMessage.map fun m => ("error_message", Json.string m)).toList ++
    (r.errorKind.map fun k => ("error_kind", k.toJson)).toList)

def record : Record Result where
  title := "DispatchResult"
  blank := .succeeded .start .unspecified .unspecified
  fields :=
    [Record.field "command" Command.reader (fun v r => { r with command := v }),
     Record.field "previous_state" State.reader (fun v r => { r with previous := v }),
     Record.field "resulting_state" State.reader (fun v r => { r with resulting := v }),
     Record.field "success" Reader.boolean (fun v r => { r with success := v }),
     Record.field "error_message" (Reader.optional Reader.string)
        (fun v r => { r with errorMessage := v }) .defaulted,
     Record.field "error_kind" (Reader.optional FailureKind.reader)
        (fun v r => { r with errorKind := v }) .defaulted]

def reader : Reader Result := record.read

end Result

structure Request where
  command : Command
  args : Args := .empty
  deriving Inhabited

namespace Request

def toJson (r : Request) : Json :=
  .object [("command", r.command.toJson), ("args", r.args.toJson)]

def record : Record Request where
  title := "DispatchRequest"
  blank := { command := .start }
  fields :=
    [Record.field "command" Command.reader (fun v r => { r with command := v }),
     Record.field "args" Args.reader (fun v r => { r with args := v }) .defaulted]

def reader : Reader Request := record.read

end Request

/-- A message from outside: an identifier to be echoed, a command's label and any arguments. -/
structure Envelope where
  id : String
  cmd : String
  args : Json := .null
  deriving Inhabited

namespace Envelope

def toJson (e : Envelope) : Json :=
  .object [("id", .string e.id), ("cmd", .string e.cmd), ("args", e.args)]

def record : Record Envelope where
  title := "TransportEnvelope"
  blank := { id := "", cmd := "" }
  fields :=
    [Record.field "id" Reader.string (fun v e => { e with id := v }),
     Record.field "cmd" Reader.string (fun v e => { e with cmd := v }),
     Record.field "args" Reader.value (fun v e => { e with args := v }) .defaulted]

def reader : Reader Envelope := record.read

end Envelope

structure Reply where
  id : String
  result : Result
  deriving DecidableEq, Repr

namespace Reply

def toJson (r : Reply) : Json := .object [("id", .string r.id), ("result", r.result.toJson)]

def record : Record Reply where
  title := "TransportReply"
  blank := ⟨"", .succeeded .start .unspecified .unspecified⟩
  fields :=
    [Record.field "id" Reader.string (fun v r => { r with id := v }),
     Record.field "result" Result.reader (fun v r => { r with result := v })]

def reader : Reader Reply := record.read

end Reply

end Lifecycle
