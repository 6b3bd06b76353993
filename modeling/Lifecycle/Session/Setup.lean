import Lifecycle.Dispatcher.Builder

/-! How a session is set up: the handlers, the configuration, and the history and sink that record
its outcomes. -/

namespace Lifecycle.Session

structure Registration where
  command : Command
  handler : Handler

inductive SinkChoice
  | memory
  | log
  | discard
  | notReady
  | rejecting
  | breaking
  deriving DecidableEq, Repr

/-- A history of its own, which breaks down from some append on if that is given. -/
structure HistoryChoice where
  capacity : Nat
  breaksFrom : Option Nat := none
  deriving DecidableEq, Repr

structure Setup where
  handlers : List Registration := []
  registry : Option (List Registration) := none
  config : Config := {}
  plain : Bool := false
  history : Option HistoryChoice := none
  sink : SinkChoice := .memory
  sinkCapacity : Nat := defaultBufferCapacity
  channelCapacity : Nat := 8

def registrations (rs : List Registration) : Registry.Builder :=
  .ofList (rs.map fun r => (r.command, r.handler))

def HistoryChoice.ledger (h : HistoryChoice) : Ledger where
  history := .withCapacity h.capacity
  breaks n := h.breaksFrom.bind fun k => if k ≤ n then some (some "history exploded") else none

def SinkChoice.telemetry (capacity : Nat) : SinkChoice → Telemetry
  | memory => { sink := .buffer (.withCapacity capacity) }
  | log => { sink := .log }
  | discard => { sink := .discard }
  | notReady => { sink := .notReady "sink offline" }
  | rejecting => { sink := .rejecting "sink full" }
  | breaking => { sink := .discard, breaks := fun _ => some (some "sink exploded") }

def Setup.dispatcher (s : Setup) : Except Dispatcher.BuildError Dispatcher := do
  let ready ← match s.registry with
    | some rs => (some <$> (registrations rs).build).mapError .duplicateHandler
    | none => pure none
  let builder := Dispatcher.Builder.ofChoices <|
    [.config s.config, .handlers (registrations s.handlers),
      .telemetry (s.sink.telemetry s.sinkCapacity)] ++
    (ready.map .registry).toList ++ (s.history.map fun h => .ledger h.ledger).toList
  if s.plain then return .ofRegistry (← builder.buildRegistry) else builder.build

end Lifecycle.Session
