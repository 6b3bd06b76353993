import Lifecycle.Machine

/-! The turns of a machine. A turn that leads on to another one of its own puts that in front of
the queue, with the share that is left; whoever it wakes comes to the end, with a full share. -/

namespace Lifecycle.Machine

inductive Ending
  | done (a : Answer)
  | brokeDown (payload : Payload)

def arrive (m : Machine) (t : Ticket) : Nat → Machine
  | 0 => m.putOff (.arrive t)
  | share + 1 =>
    let entered := { m with gate := m.gate.enter t }
    if m.gate.isFree then (entered.note (.admitted t.call)).resume (.proceed share) else entered

def passOn (m : Machine) : Machine :=
  let left := match m.gate.holder with
    | none => m
    | some h => m.note (.left h.ticket.call)
  let passed := { left with gate := m.gate.leave }
  match passed.gate.holder with
  | none => passed
  | some h => (passed.note (.admitted h.ticket.call)).wake (.proceed (fairShare - 1))

/-- The worker dies: nobody it owes a reply gets one, and nobody waits for room any more. -/
def bury (m : Machine) (call : Nat) : Machine :=
  let m := m.answer call (.undelivered .replyDropped)
  let m := m.channel.queue.foldl (fun m p => m.answer p.call (.undelivered .replyDropped)) m
  let m := m.channel.waiting.foldl (fun m p => m.answer p.call (.undelivered .closed)) m
  { m with channel := { m.channel with queue := [], waiting := [], worker := .gone } }

def conclude (m : Machine) (t : Ticket) (command : Command) (ending : Ending) (share : Nat) :
    Machine :=
  let m := m.passOn
  match t.seat, ending with
  | .caller, .done a => m.answer t.call a
  | .caller, .brokeDown _ => m.answer t.call .panicked
  | .task, .done a => m.answer t.call a
  | .task, .brokeDown payload =>
    if m.isPending t.call then m.wake (.report t.call command payload) else m
  | .worker, .done a =>
    let m := if m.isPending t.call then m.answer t.call a else m.log [.replyAbandoned]
    m.resume (.collect share)
  | .worker, .brokeDown _ => m.bury t.call

/-- Records a decided dispatch, first in the history and then with the sink. -/
def record (m : Machine) (call : Nat) (r : Result) (e : Event) : Machine × Ending :=
  let (ledger, appended) := m.dispatcher.ledger.append r
  let m := { m with dispatcher := { m.dispatcher with ledger } }
  match appended with
  | .error payload => (m, .brokeDown payload)
  | .ok () =>
    let m := m.note (.appended call r)
    let (telemetry, emitted) := m.dispatcher.telemetry.emit e
    let m := { m with dispatcher := { m.dispatcher with telemetry } }
    match emitted with
    | .error payload => (m, .brokeDown payload)
    | .ok logs => ((m.note (.emitted call e)).log logs, .done (.result r))

/-- What the record of a dispatch takes from a share. A history that breaks down takes nothing. -/
def recordCost (m : Machine) : Nat := if m.dispatcher.ledger.breakdown?.isSome then 0 else 1

def commit (m : Machine) (call : Nat) (command : Command) (previous : State)
    (outcome : Option Outcome) (d : Decision) : Machine :=
  let m := m.log [d.log command previous]
  let m := m.setStatus (d.status command m.status)
  m.note (.committed call outcome (d.result command previous) m.status)

def wrapUp (m : Machine) (t : Ticket) (r : Result) (e : Event) (share : Nat) : Machine :=
  if share < m.recordCost then
    let m := { m with gate := { m.gate with holder := some ⟨t, .published r e⟩ } }
    m.putOff (.proceed fairShare)
  else
    let recorded := m.record t.call r e
    recorded.1.conclude t r.command recorded.2 (share - m.recordCost)

/-- Publishes a decision, which everybody can see before it is recorded. -/
def finish (m : Machine) (t : Ticket) (command : Command) (previous : State)
    (outcome : Option Outcome) (d : Decision) (share : Nat) : Machine :=
  let committed := m.commit t.call command previous outcome d
  committed.wrapUp t (d.result command previous) (d.event command previous) share

/-- Lets a handler run take the permits it can get. It ends, is put off or blocks the gate. -/
def advance (m : Machine) (t : Ticket) (r : Run) (share : Nat) : Machine :=
  let got := min (min r.permits m.permits) share
  let run := { r with permits := r.permits - got }
  let m := { m with
    permits := m.permits - got
    gate := { m.gate with holder := some ⟨t, .running run⟩ } }
  if got = r.permits then
    m.finish t r.command r.previous (some r.outcome)
      (r.outcome.decide r.command r.previous r.fallback) (share - got)
  else if got = share then m.putOff (.proceed fairShare)
  else m

def begin (m : Machine) (t : Ticket) (share : Nat) : Machine :=
  match t.work with
  | .arrange state =>
    let m := m.log [.arranged state]
    let m := m.setStatus (m.status.arrange state)
    let m := m.note (.arranged t.call m.status)
    (m.passOn).answer t.call (.arranged state)
  | .dispatch command args =>
    match m.dispatcher.prepare command with
    | .error failure => m.finish t command m.state none (.refuse failure) share
    | .ok (fallback, handler) =>
      let context : Context := ⟨command, m.state, args⟩
      let b := handler.behaviour (m.runs command) context
      let m := m.note (.ran t.call context handler.observed)
      m.advance t ⟨command, context.state, fallback, b.permits, b.outcome⟩ share

def proceed (m : Machine) (share : Nat) : Machine :=
  match m.gate.holder with
  | none => m
  | some h => match h.stage with
    | .admitted => m.begin h.ticket share
    | .running r => m.advance h.ticket r share
    | .published r e => m.wrapUp h.ticket r e share

def enqueue (m : Machine) (p : Post) : Machine :=
  let queued := { m with channel := { m.channel with queue := m.channel.queue ++ [p] } }
  let queued := queued.note (.queued p.call)
  match m.channel.worker with
  | .idle =>
    { queued with channel := { queued.channel with worker := .busy } }.wake (.collect fairShare)
  | _ => queued

def place (m : Machine) (p : Post) : Machine :=
  if m.channel.isClosed then m.answer p.call (.undelivered .closed) else m.enqueue p

/-- The worker takes the next request, which gives room to the first sender that waits for it,
and comes to the gate with it. -/
def collect (m : Machine) : Nat → Machine
  | 0 => m.putOff (.collect fairShare)
  | share + 1 =>
    match m.channel.queue with
    | [] => { m with channel := { m.channel with worker := .idle } }
    | p :: queue =>
      let m := { m with channel := { m.channel with queue } }
      let m := m.note (.taken p.call)
      let m := match m.channel.waiting with
        | [] => m
        | w :: waiting => { m with channel := { m.channel with waiting } }.wake (.place w)
      m.arrive p.ticket share

def abortMessage (command : Command) : Payload → String
  | none => s!"dispatch of {command.name} aborted: task N panicked"
  | some text =>
    let said := Text.quoted text
    s!"dispatch of {command.name} aborted: task N panicked with message {said}"

/-- A caller finds that its task broke down and tells the state that it sees then. -/
def report (m : Machine) (call : Nat) (command : Command) (payload : Payload) : Machine :=
  let m := m.log [.aborted command]
  let failure : Failure := .handlerFailure command (abortMessage command payload)
  m.answer call (.aborted (.failed command m.state m.state failure))

def take (m : Machine) : Turn → Machine
  | .arrive t => m.arrive t fairShare
  | .proceed share => m.proceed share
  | .collect share => m.collect share
  | .place p => m.place p
  | .report call command payload => m.report call command payload

/-- Takes the first turn of the queue, if there is one. What was put off is queued again when
nothing else is left. -/
def step (m : Machine) : Machine :=
  match m.ready, m.deferred with
  | t :: ready, _ => { m with ready }.take t
  | [], t :: ready => { m with ready, deferred := [] }.take t
  | [], [] => m

end Lifecycle.Machine
