import Lifecycle.Channel
import Lifecycle.Dispatcher
import Lifecycle.Gate

/-! A dispatcher at work for many callers. Everything that can go on is a turn in one queue; turns
are taken one after another, and between two turns nothing changes. Whoever is woken has a share
of operations before it has to let all others go on. The journal keeps what happened, in order.

A machine has one channel, and the channel has one worker; callers may use them or come to the
gate themselves. Dispatchers with several channels are not described. -/

namespace Lifecycle

inductive Answer
  | result (r : Result)
  /-- The dispatch ran on a task of its own and that task broke down. -/
  | aborted (r : Result)
  | arranged (state : State)
  /-- The caller's own dispatch broke down. -/
  | panicked
  | undelivered (e : ChannelError)
  deriving DecidableEq, Repr

inductive Progress
  | pending
  | abandoned
  | answered (a : Answer)
  deriving DecidableEq, Repr

def Post.ticket (p : Post) : Ticket := ⟨p.call, .worker, .dispatch p.command p.args⟩

/-- Something that can go on; where it matters, with what is left of the share of whoever goes
on. -/
inductive Turn
  | arrive (ticket : Ticket)
  | proceed (share : Nat)
  | collect (share : Nat)
  | place (post : Post)
  | report (call : Nat) (command : Command) (payload : Payload)

def Turn.isProceed : Turn → Bool
  | .proceed _ => true
  | _ => false

def Turn.isPlace : Turn → Bool
  | .place _ => true
  | _ => false

inductive Note
  | opened (ticket : Ticket)
  | queued (call : Nat)
  | taken (call : Nat)
  | admitted (call : Nat)
  | left (call : Nat)
  | ran (call : Nat) (context : Context) (observed : Bool)
  /-- A dispatch was decided and its status published; the outcome is that of its handler, if one
  ran. -/
  | committed (call : Nat) (outcome : Option Outcome) (result : Result) (status : Status)
  | arranged (call : Nat) (status : Status)
  | appended (call : Nat) (result : Result)
  | emitted (call : Nat) (event : Event)
  | logged (record : LogRecord)

def Note.observation? : Note → Option Context
  | .ran _ context true => some context
  | _ => none

def Note.status? : Note → Option Status
  | .committed _ _ _ status => some status
  | .arranged _ status => some status
  | _ => none

def Note.record? : Note → Option LogRecord
  | .logged record => some record
  | _ => none

def Note.ticket? : Note → Option Ticket
  | .opened ticket => some ticket
  | _ => none

def Note.appended? : Note → Option Result
  | .appended _ result => some result
  | _ => none

def Note.emitted? : Note → Option Event
  | .emitted _ event => some event
  | _ => none

def Note.isRunOf (command : Command) : Note → Bool
  | .ran _ context _ => context.command == command
  | _ => false

/-- The share of whoever is woken. The worker's taking a request, the admission to the gate, each
permit and the append to the history use one each. Whoever comes to one of these with nothing left
is put off, and then has a full share again. -/
def fairShare : Nat := 128

structure Machine where
  dispatcher : Dispatcher
  channel : Channel
  gate : Gate := {}
  permits : Nat := 0
  ready : List Turn := []
  /-- Turns that are put off until no other turn is left, the latest first. -/
  deferred : List Turn := []
  calls : List Progress := []
  journal : List Note := []

namespace Machine

def start (d : Dispatcher) (channelCapacity : Nat) : Machine :=
  { dispatcher := d, channel := .withCapacity channelCapacity }

def status (m : Machine) : Status := m.dispatcher.status

def state (m : Machine) : State := m.dispatcher.state

def isQuiet (m : Machine) : Bool := m.ready.isEmpty && m.deferred.isEmpty

def runs (m : Machine) (command : Command) : Nat := m.journal.countP (Note.isRunOf command)

def appended (m : Machine) : List Result := m.journal.filterMap Note.appended?

def emitted (m : Machine) : List Event := m.journal.filterMap Note.emitted?

def note (m : Machine) (n : Note) : Machine := { m with journal := m.journal ++ [n] }

def log (m : Machine) (records : List LogRecord) : Machine :=
  { m with journal := m.journal ++ records.map .logged }

def wake (m : Machine) (t : Turn) : Machine := { m with ready := m.ready ++ [t] }

/-- Lets the present turn be followed by another one at once. -/
def resume (m : Machine) (t : Turn) : Machine := { m with ready := t :: m.ready }

/-- Puts a turn off until no other turn is left. -/
def putOff (m : Machine) (t : Turn) : Machine := { m with deferred := t :: m.deferred }

def isPending (m : Machine) (call : Nat) : Bool := m.calls[call]? == some .pending

def setProgress (m : Machine) (call : Nat) (p : Progress) : Machine :=
  { m with calls := m.calls.set call p }

def answer (m : Machine) (call : Nat) (a : Answer) : Machine :=
  if m.isPending call then m.setProgress call (.answered a) else m

def setStatus (m : Machine) (s : Status) : Machine :=
  { m with dispatcher := { m.dispatcher with status := s } }

end Machine

end Lifecycle
