import Lifecycle.Machine.Quiet
import Mathlib.Logic.Relation

/-! Every configuration that a machine passes through, also between two turns. Callers may come at
any moment, so many of them before the first gets its turn; they give up while they can do nothing
but wait. -/

namespace Lifecycle

def Dispatcher.patient : Dispatcher :=
  .ofRegistry ⟨fun _ => some { behaviour := fun _ _ => ⟨1, .transition .default⟩ }⟩

namespace Machine

def turns (m : Machine) : List Turn := m.ready ++ m.deferred

/-- Whether it is this very caller that goes on with a turn. -/
def owns (m : Machine) (call : Nat) : Turn → Bool
  | .arrive t => t.call == call && t.seat == .caller
  | .proceed _ => m.gate.heldBy call
  | .collect _ => false
  | .place p => p.call == call
  | .report c .. => c == call

/-- A caller can do nothing but wait: for the gate, for permits, for room or for its reply. -/
def Suspended (m : Machine) (call : Nat) : Prop := ∀ turn ∈ m.turns, m.owns call turn = false

/-- An assumption on runs: callers do not give up while they can go on. It leaves out a caller that
gives up between the publication of its own decision and the record of it; when nothing can go on
it always holds. -/
def Timely (m : Machine) : Move → Prop
  | .abandon call => m.Suspended call
  | _ => True

/-- A single change: a turn, a move of a caller, or something that observers do. -/
inductive Change (m : Machine) : Machine → Prop
  | turn : Change m m.step
  | move (v : Move) (timely : m.Timely v) : Change m (m.submit v)
  | clearHistory : Change m m.clearHistory
  | clearEvents : Change m m.clearEvents
  | refusedFrame : Change m (m.log [.undecodable])

abbrev Reaches : Machine → Machine → Prop := Relation.ReflTransGen Change

def Reachable (d : Dispatcher) (capacity : Nat) (m : Machine) : Prop :=
  Reaches (.start d capacity) m

/-- What every turn keeps is kept by any number of them, so also when a machine settles. -/
theorem steps_keep {P : Machine → Prop} (keeps : ∀ m, P m → P m.step) (n : Nat) {m : Machine}
    (h : P m) : P (steps n m) := by
  induction n generalizing m with
  | zero => exact h
  | succ n ih =>
    rw [steps]
    split
    · exact h
    · exact ih (keeps m h)

theorem reaches_steps (n : Nat) (m : Machine) : Reaches m (steps n m) :=
  steps_keep (fun _ later => later.tail .turn) n .refl

theorem reaches_settle (m : Machine) : Reaches m m.settle := reaches_steps m.work m

theorem isQuiet_iff_turns {m : Machine} : m.isQuiet ↔ m.turns = [] := by
  rw [isQuiet_iff, turns, List.append_eq_nil_iff]

theorem suspended_of_quiet {m : Machine} (quiet : m.isQuiet) (call : Nat) : m.Suspended call := by
  simp [Suspended, isQuiet_iff_turns.1 quiet]

theorem timely_of_quiet {m : Machine} (quiet : m.isQuiet) (v : Move) : m.Timely v := by
  cases v with
  | abandon call => exact suspended_of_quiet quiet call
  | _ => trivial

theorem reaches_move {m : Machine} (quiet : m.isQuiet) (v : Move) : Reaches m (m.move v) :=
  .head (.move v (timely_of_quiet quiet v)) (reaches_settle _)

theorem isQuiet_move (m : Machine) (v : Move) : (m.move v).isQuiet := isQuiet_settle _

theorem reaches_run {m : Machine} (quiet : m.isQuiet) (moves : List Move) :
    Reaches m (m.run moves) ∧ (m.run moves).isQuiet := by
  induction moves generalizing m with
  | nil => exact ⟨.refl, quiet⟩
  | cons v moves ih =>
    obtain ⟨reaches, still⟩ := ih (isQuiet_move m v)
    exact ⟨(reaches_move quiet v).trans reaches, still⟩

theorem isQuiet_start (d : Dispatcher) (capacity : Nat) : (start d capacity).isQuiet := rfl

theorem reachable_run (d : Dispatcher) (capacity : Nat) (moves : List Move) :
    Reachable d capacity ((start d capacity).run moves) :=
  (reaches_run (isQuiet_start d capacity) moves).1

theorem isQuiet_run (d : Dispatcher) (capacity : Nat) (moves : List Move) :
    ((start d capacity).run moves).isQuiet :=
  (reaches_run (isQuiet_start d capacity) moves).2

theorem step_of_ready {m : Machine} {t : Turn} {ready : List Turn} (next : m.ready = t :: ready) :
    m.step = { m with ready }.take t := by
  rw [step, next]

theorem step_cases (m : Machine) :
    (m.isQuiet ∧ m.step = m) ∨ ∃ t ready deferred, m.turns = t :: (ready ++ deferred) ∧
      deferred ⊆ m.deferred ∧ m.step = { m with ready, deferred }.take t := by
  unfold step
  split
  · next t ready same =>
    exact .inr ⟨t, ready, m.deferred, by rw [turns, same]; rfl, List.Subset.refl _, rfl⟩
  · next t ready none same =>
    exact .inr ⟨t, ready, [], by simp [turns, none, same], List.nil_subset _, rfl⟩
  · next none none' => exact .inl ⟨by simp [isQuiet, none, none'], rfl⟩

end Machine

end Lifecycle
