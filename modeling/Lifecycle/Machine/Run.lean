import Lifecycle.Machine.Step

/-! What callers do with a machine. After each of these moves the machine goes on until it is
quiet. Every turn lowers `work`, so that many steps suffice. -/

namespace Lifecycle

/-- A turn weighs more than all that it leads to. -/
def Turn.weight : Turn → Nat
  | .arrive _ => 4
  | .proceed 0 => 4
  | .proceed _ => 3
  | .collect 0 => 2
  | .collect _ => 1
  | .place _ => 6
  | .report .. => 1

/-- How a dispatch comes to the gate: in the caller's own time, on a task of its own, or through
the channel. -/
inductive Path
  | attached
  | detached
  | queued
  deriving DecidableEq, Repr

def Path.seat : Path → Seat
  | attached => .caller
  | detached => .task
  | queued => .worker

inductive Move
  | dispatch (path : Path) (command : Command) (args : Args)
  | arrange (state : State)
  | release (n : Nat)
  | abandon (call : Nat)

namespace Machine

def weights : List Turn → Nat
  | [] => 0
  | t :: ts => t.weight + weights ts

/-- A bound on the number of turns until the machine is quiet. -/
def work (m : Machine) : Nat :=
  weights m.ready + weights m.deferred + 3 * m.gate.waiting.length +
    4 * m.channel.queue.length + 6 * m.channel.waiting.length + m.permits

def steps : Nat → Machine → Machine
  | 0, m => m
  | n + 1, m => if m.isQuiet then m else steps n m.step

def settle (m : Machine) : Machine := steps m.work m

/-- Whether the channel has room that nobody was given. -/
def hasRoom (m : Machine) : Bool :=
  m.channel.queue.length + (m.ready ++ m.deferred).countP Turn.isPlace < m.channel.capacity

def send (m : Machine) (p : Post) : Machine :=
  if m.channel.isClosed then m.answer p.call (.undelivered .closed)
  else if m.hasRoom then m.enqueue p
  else { m with channel := { m.channel with waiting := m.channel.waiting ++ [p] } }

/-- Opens a call, whose number is that of the calls before it. -/
def openCall (m : Machine) (t : Ticket) : Machine :=
  note { m with calls := m.calls ++ [.pending] } (.opened t)

def dispatch (m : Machine) (path : Path) (command : Command) (args : Args) : Machine :=
  let t : Ticket := ⟨m.calls.length, path.seat, .dispatch command args⟩
  let m := m.openCall t
  match path with
  | .queued => m.send ⟨t.call, command, args⟩
  | _ => m.wake (.arrive t)

def arrange (m : Machine) (state : State) : Machine :=
  let t : Ticket := ⟨m.calls.length, .caller, .arrange state⟩
  (m.openCall t).wake (.arrive t)

def isBlocked (m : Machine) : Bool :=
  m.gate.blocked?.isSome && !(m.ready ++ m.deferred).any Turn.isProceed

def release (m : Machine) (n : Nat) : Machine :=
  let m := { m with permits := m.permits + n }
  if m.isBlocked then m.wake (.proceed fairShare) else m

/-- The caller no longer waits. Its own place at the gate or in the line for room is given up; a
task of its own and a queued request go on without it. -/
def abandon (m : Machine) (call : Nat) : Machine :=
  if m.isPending call then
    let m := m.setProgress call .abandoned
    if m.gate.heldBy call then m.passOn
    else { m with gate := m.gate.withdraw call, channel := m.channel.withdraw call }
  else m

/-- What a move does by itself, before anything goes on. -/
def submit (m : Machine) : Move → Machine
  | .dispatch path command args => m.dispatch path command args
  | .arrange state => m.arrange state
  | .release n => m.release n
  | .abandon call => m.abandon call

def move (m : Machine) (v : Move) : Machine := (m.submit v).settle

def run (m : Machine) (moves : List Move) : Machine := moves.foldl move m

def clearHistory (m : Machine) : Machine :=
  let ledger := m.dispatcher.ledger
  { m with dispatcher := { m.dispatcher with
    ledger := { ledger with history := ledger.history.clear } } }

def clearEvents (m : Machine) : Machine :=
  let telemetry := m.dispatcher.telemetry
  { m with dispatcher := { m.dispatcher with
    telemetry := { telemetry with sink := telemetry.sink.clear } } }

end Machine

end Lifecycle
