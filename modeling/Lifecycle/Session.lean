import Lifecycle.Args.Canonical
import Lifecycle.Machine.Run
import Lifecycle.Router
import Lifecycle.Session.Setup

/-! A session: a dispatcher that is set up once and then used in steps, by callers of every kind.
A call that cannot finish at once stays open under a name until its answer is asked for. -/

namespace Lifecycle

inductive Entry
  | direct
  | request
  | service
  | channel
  | harness
  deriving DecidableEq, Repr

def Entry.path : Entry → Path
  | direct => .attached
  | request => .attached
  | service => .detached
  | channel => .queued
  | harness => .detached

/-- A call that has not been reported yet; for a frame, its codec and identifier. -/
structure OpenCall where
  call : Nat
  frame : Option (Codec × String) := none

structure Session where
  machine : Machine
  ownsHistory : Bool := false
  opened : List (String × OpenCall) := []
  /-- How much of the journal the last look at calls and logs has seen. -/
  callsSeen : Nat := 0
  logsSeen : Nat := 0

namespace Session

inductive Step
  | dispatch (entry : Entry) (command : Command) (args : Json) (id : String)
  | frame (codec : Codec) (bytes : Bytes) (id : String)
  | setState (state : State) (id : String)
  | join (id : String)
  | abandon (id : String)
  | release (n : Nat)
  | status
  | history
  | historyLength
  | clearHistory
  | events
  | clearEvents
  | calls
  | logs
  | registry
  | legalFrom (command : Command)
  | debug
  | serviceDebug

namespace Step

/-- A dispatch by the harness; without arguments the canonical ones of the command are meant. -/
def harness (command : Command) (args : Option Args) (id : String) : Step :=
  .dispatch .harness command (args.elim .null Args.toJson) id

def harnessStart : Option Args → String → Step := harness .start

def harnessStop : Option Args → String → Step := harness .stop

def harnessPause : Option Args → String → Step := harness .pause

def harnessResume : Option Args → String → Step := harness .resume

def harnessReload : Option Args → String → Step := harness .reload

def harnessHealthCheck : Option Args → String → Step := harness .healthCheck

def harnessRecover : Option Args → String → Step := harness .recover

end Step

inductive Report
  | result (r : Result)
  | reply (frame : Bytes)
  | abortedReply (id : String) (r : Result)
  | arranged (state : State)
  | panicked
  | undelivered (e : ChannelError)
  | invalidArgs (e : Args.Invalid)
  | refused (e : RouterError)
  | pending (id : String)
  | unknown (id : String)
  | abandoned (id : String)
  | released
  | cleared
  | status (s : Status)
  | results (rs : List Result)
  | count (n : Nat)
  | events (es : List Event) (evicted : Nat)
  | calls (cs : List Context)
  | logs (rs : List LogRecord)
  | registry (r : Registry)
  | states (ss : List State)
  | text (t : String)

def start (s : Setup) : Except Dispatcher.BuildError Session := do
  let dispatcher ← s.dispatcher
  return {
    machine := .start dispatcher s.channelCapacity
    ownsHistory := s.history.isSome && !s.plain }

/-- An answer in the form in which its caller gets it. -/
def present (o : OpenCall) : Answer → Report
  | .result r => match o.frame with
    | none => .result r
    | some (codec, id) => match Router.reply codec id r with
      | .ok frame => .reply frame
      | .error e => .refused e
  | .aborted r => match o.frame with
    | none => .result r
    | some (codec, id) => match Router.reply codec id r with
      | .ok _ => .abortedReply id r
      | .error e => .refused e
  | .arranged state => .arranged state
  | .panicked => .panicked
  | .undelivered e => .undelivered e

def forget (s : Session) (id : String) : Session :=
  { s with opened := s.opened.filter fun (name, _) => !(name == id) }

def settleCall (s : Session) (id : String) (o : OpenCall) (otherwise : Report) :
    Session × Report :=
  match s.machine.calls[o.call]? with
  | some (.answered a) => (s.forget id, present o a)
  | _ => (s, otherwise)

def opening (s : Session) (id : String) (frame : Option (Codec × String)) (move : Move) :
    Session × Report :=
  let o : OpenCall := { call := s.machine.calls.length, frame }
  let s := { s.forget id with machine := s.machine.move move }
  { s with opened := (id, o) :: s.opened }.settleCall id o (.pending id)

def find? (s : Session) (id : String) : Option OpenCall := Members.get? id s.opened

/-- The document of a dispatch. A harness reads null as the canonical default. -/
def documentFor (entry : Entry) (command : Command) (args : Json) : Except Args.Invalid Args := do
  let document ← Args.ofJson args
  match entry, args with
  | .harness, .null => return Args.Canonical.default command
  | _, _ => return document

def take (s : Session) : Step → Session × Report
  | .dispatch entry command args id =>
    match documentFor entry command args with
    | .error e => (s, .invalidArgs e)
    | .ok document => s.opening id none (.dispatch entry.path command document)
  | .frame codec bytes id =>
    match Router.accept codec bytes with
    | .ok (name, r) =>
      s.opening id (some (codec, name)) (.dispatch .detached r.command r.args)
    | .error (.decode text) =>
      ({ s.forget id with machine := s.machine.log [.undecodable] }, .refused (.decode text))
    | .error e => (s.forget id, .refused e)
  | .setState state id => s.opening id none (.arrange state)
  | .join id => match s.find? id with
    | none => (s, .unknown id)
    | some o => s.settleCall id o (.pending id)
  | .abandon id => match s.find? id with
    | none => (s, .unknown id)
    | some o => match s.machine.calls[o.call]? with
      | some (.answered a) => (s.forget id, present o a)
      | _ => ({ s.forget id with machine := s.machine.move (.abandon o.call) }, .abandoned id)
  | .release n => ({ s with machine := s.machine.move (.release n) }, .released)
  | .status => (s, .status s.machine.status)
  | .history => (s, .results s.machine.dispatcher.ledger.history.entries)
  | .historyLength => (s, .count s.machine.dispatcher.ledger.history.entries.length)
  | .clearHistory =>
    if s.ownsHistory then ({ s with machine := s.machine.clearHistory }, .cleared)
    else (s, .cleared)
  | .events => match s.machine.dispatcher.telemetry.sink.buffer? with
    | some b => (s, .events b.events b.evicted.toNat)
    | none => (s, .events [] 0)
  | .clearEvents => ({ s with machine := s.machine.clearEvents }, .cleared)
  | .calls =>
    let news := s.machine.journal.drop s.callsSeen
    ({ s with callsSeen := s.machine.journal.length },
      .calls (news.filterMap Note.observation?))
  | .logs =>
    let news := s.machine.journal.drop s.logsSeen
    ({ s with logsSeen := s.machine.journal.length }, .logs (news.filterMap Note.record?))
  | .registry => (s, .registry s.machine.dispatcher.registry)
  | .legalFrom command => (s, .states (s.machine.dispatcher.policy.legalFrom command))
  | .debug => (s, .text s.machine.dispatcher.text)
  | .serviceDebug => (s, .text s.machine.dispatcher.serviceText)

def run (s : Session) : List Step → List (Report × Status)
  | [] => []
  | step :: steps =>
    let (s, report) := s.take step
    (report, s.machine.status) :: s.run steps

end Session

end Lifecycle
