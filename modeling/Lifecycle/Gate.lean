import Lifecycle.Decision

/-! The gate: one place that a dispatch or an arrangement holds from its admission to the end of
its records. Those who find it taken wait in order of arrival, and whoever leaves it hands it to
the first of them. -/

namespace Lifecycle

inductive Work
  | dispatch (command : Command) (args : Args)
  | arrange (state : State)

/-- On whose account the gate is used: the caller's own, that of a task which outlives the caller,
or the channel worker's. -/
inductive Seat
  | caller
  | task
  | worker
  deriving DecidableEq, Repr

structure Ticket where
  call : Nat
  seat : Seat
  work : Work

structure Run where
  command : Command
  previous : State
  fallback : State
  permits : Nat
  outcome : Outcome

inductive Stage
  | admitted
  | running (r : Run)
  /-- The decision is published, but it is not recorded yet. -/
  | published (result : Result) (event : Event)

structure Holding where
  ticket : Ticket
  stage : Stage := .admitted

structure Gate where
  holder : Option Holding := none
  waiting : List Ticket := []

namespace Gate

def isFree (g : Gate) : Bool := g.holder.isNone

def enter (g : Gate) (t : Ticket) : Gate :=
  match g.holder with
  | none => { g with holder := some { ticket := t } }
  | some _ => { g with waiting := g.waiting ++ [t] }

def leave (g : Gate) : Gate :=
  match g.waiting with
  | [] => { g with holder := none }
  | t :: ts => { holder := some { ticket := t }, waiting := ts }

def blocked? (g : Gate) : Option Run := g.holder.bind fun h => match h.stage with
  | .running r => some r
  | _ => none

/-- Whether the gate is held on the account of this very caller. -/
def heldBy (g : Gate) (call : Nat) : Bool :=
  match g.holder with
  | some h => h.ticket.call == call && h.ticket.seat == .caller
  | none => false

def withdraw (g : Gate) (call : Nat) : Gate :=
  { g with waiting := g.waiting.filter fun t => !(t.call == call && t.seat == .caller) }

@[simp] theorem holder_withdraw (g : Gate) (call : Nat) : (g.withdraw call).holder = g.holder := rfl

theorem mem_waiting_withdraw {g : Gate} {call : Nat} {t : Ticket} :
    t ∈ (g.withdraw call).waiting ↔ t ∈ g.waiting ∧ (t.call = call → t.seat ≠ .caller) := by
  simp [withdraw, Decidable.imp_iff_not_or]

end Gate

end Lifecycle
