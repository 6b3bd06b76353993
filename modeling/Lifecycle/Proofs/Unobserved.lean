import Lifecycle.Proofs.Unnoticed

/-! Machines without their observers. As long as nothing breaks down, whatever is done to a machine
does the same to what is left of it without its history, its sink and the log. -/

namespace Lifecycle

theorem unlogged_singleton {n : Note} (kept : n.record? = none) : unlogged [n] = [n] := by
  simp [unlogged, kept]

namespace Machine

/-- A machine without what observes it. -/
def unobserved (m : Machine) : Machine :=
  { m with
    dispatcher := { m.dispatcher with
      ledger := { history := .withCapacity 0 }
      telemetry := { sink := .discard } }
    journal := unlogged m.journal }

variable {m n : Machine} {t : Ticket}

theorem unobserved_note (m : Machine) {x : Note} (kept : x.record? = none) :
    (m.note x).unobserved = m.unobserved.note x := by
  simp only [unobserved, note, unlogged_append, unlogged_singleton kept]

theorem unobserved_log (m : Machine) (records : List LogRecord) :
    (m.log records).unobserved = m.unobserved := by
  simp only [unobserved, log, unlogged_append, unlogged_logs, List.append_nil]

theorem runs_eq (m : Machine) (command : Command) : m.runs command =
    (m.journal.filterMap Note.running?).countP fun r => r.2.command == command := by
  rw [runs, List.countP_filterMap]
  refine List.countP_congr fun n _ => ?_
  cases n <;> simp [Note.isRunOf, Note.running?]

theorem runs_unobserved (m : Machine) (command : Command) :
    m.unobserved.runs command = m.runs command := by
  rw [runs_eq, runs_eq, ← filterMap_unlogged (fun _ => rfl) m.journal]
  rfl

theorem eq_of_unobserved {α : Type} {f : Machine → α} (blind : ∀ m, f m.unobserved = f m)
    (same : m.unobserved = n.unobserved) : f m = f n := by
  rw [← blind, same, blind]

section unbroken

variable (unbroken : m.dispatcher.Unbroken)
include unbroken

theorem unobserved_record (call : Nat) (r : Result) (e : Event) :
    (m.record call r e).1.unobserved =
        (m.unobserved.note (.appended call r)).note (.emitted call e) ∧
      (m.record call r e).2 = .done (.result r) ∧ (m.record call r e).1.dispatcher.Unbroken := by
  obtain ⟨ledger, telemetry, news, ending, same, records⟩ := m.record_eq call r e
  rw [same]
  cases records with
  | all =>
    refine ⟨?_, rfl, unbroken⟩
    simp [unobserved, note, unlogged, Note.record?]
  | noResult breaks => cases (unbroken.1 _).symm.trans breaks
  | noEvent breaks => cases (unbroken.2 _).symm.trans breaks

theorem recordCost_of_unbroken : m.recordCost = 1 := by
  rw [recordCost, Ledger.breakdown?, unbroken.1]
  rfl

end unbroken

/-- Nothing breaks down in either machine, and without its observers it is the other. -/
structure Unaware (m n : Machine) : Prop where
  left : m.dispatcher.Unbroken
  right : n.dispatcher.Unbroken
  same : m.unobserved = n.unobserved

namespace Unaware

theorem prepares (h : Unaware m n) : m.PreparesAs n := fun _ _ command _ _ =>
  eq_of_unobserved (f := fun m => m.dispatcher.prepare command) (fun _ => rfl) h.same

theorem isPending (h : Unaware m n) (call : Nat) : m.isPending call = n.isPending call :=
  eq_of_unobserved (f := fun m => m.isPending call) (fun _ => rfl) h.same

theorem lockstep : Lockstep Unaware where
  channel h := eq_of_unobserved (f := Machine.channel) (fun _ => rfl) h.same
  gate h := eq_of_unobserved (f := Machine.gate) (fun _ => rfl) h.same
  permits h := eq_of_unobserved (f := Machine.permits) (fun _ => rfl) h.same
  status h := eq_of_unobserved (f := Machine.status) (fun _ => rfl) h.same
  length h := eq_of_unobserved (f := fun m => m.calls.length) (fun _ => rfl) h.same
  runs h command := by rw [← runs_unobserved, h.same, runs_unobserved]
  hasRoom h := eq_of_unobserved (f := Machine.hasRoom) (fun _ => rfl) h.same
  isBlocked h := eq_of_unobserved (f := Machine.isBlocked) (fun _ => rfl) h.same
  isPending h call := .inl (h.isPending call)
  withChannel h channel := { h with same := congrArg (fun m => { m with channel }) h.same }
  withGate h gate := { h with same := congrArg (fun m => { m with gate }) h.same }
  withPermits h permits := { h with same := congrArg (fun m => { m with permits }) h.same }
  setStatus h s := { h with same := congrArg (Machine.setStatus · s) h.same }
  note h x kept :=
    { h with same := by rw [unobserved_note _ kept, unobserved_note _ kept, h.same] }
  log h records := { h with same := by rw [unobserved_log, unobserved_log, h.same] }
  wake h turn := { h with same := congrArg (Machine.wake · turn) h.same }
  resume h turn := { h with same := congrArg (Machine.resume · turn) h.same }
  putOff h turn := { h with same := congrArg (Machine.putOff · turn) h.same }
  setProgress h call p := { h with same := congrArg (Machine.setProgress · call p) h.same }
  opened h :=
    { h with same := congrArg (fun m => { m with calls := m.calls ++ [Progress.pending] }) h.same }
  recordCost h := by rw [recordCost_of_unbroken h.left, recordCost_of_unbroken h.right]
  record h call r e := by
    obtain ⟨recorded, ending, unbroken⟩ := unobserved_record h.left call r e
    obtain ⟨recorded', ending', unbroken'⟩ := unobserved_record h.right call r e
    exact ⟨⟨unbroken, unbroken', by rw [recorded, recorded', h.same]⟩, ending.trans ending'.symm⟩

theorem step (h : Unaware m n) : Unaware m.step n.step :=
  lockstep.step h (eq_of_unobserved (f := Machine.ready) (fun _ => rfl) h.same)
    (eq_of_unobserved (f := Machine.deferred) (fun _ => rfl) h.same)
    (fun ready deferred =>
      { h with same := congrArg (fun m => { m with ready, deferred }) h.same })
    fun _ _ _ => h.prepares

theorem submit (h : Unaware m n) (v : Move) : Unaware (m.submit v) (n.submit v) :=
  lockstep.submit h fun call _ => h.isPending call

theorem settle (h : Unaware m n) : Unaware m.settle n.settle := by
  have steps (k : Nat) : Unaware (steps k m) (steps k n) := by
    induction k generalizing m n with
    | zero => exact h
    | succ k ih =>
      have quiet : m.isQuiet = n.isQuiet := eq_of_unobserved (fun _ => rfl) h.same
      rw [Machine.steps, Machine.steps, quiet]
      split
      · exact h
      · exact ih h.step
  have work : m.work = n.work := eq_of_unobserved (fun _ => rfl) h.same
  rw [Machine.settle, Machine.settle, work]
  exact steps n.work

theorem move (h : Unaware m n) (v : Move) : Unaware (m.move v) (n.move v) := (h.submit v).settle

end Unaware

variable {d e : Dispatcher} {capacity capacity' : Nat} {m' n' : Machine}

theorem Reachable.unbroken (h : Reachable d capacity m) (unbroken : d.Unbroken) :
    m.dispatcher.Unbroken :=
  have alike := h.accounted.alike
  ⟨fun k => by rw [alike.ledger, unbroken.1], fun k => by rw [alike.telemetry, unbroken.2]⟩

/-- Callers see the same in both machines: the status, now and at any time before, the handler runs
with their contexts, what was decided, and what everybody was told. -/
structure Indistinct (m n : Machine) : Prop where
  status : m.status = n.status
  published : m.journal.filterMap Note.status? = n.journal.filterMap Note.status?
  runs : m.journal.filterMap Note.running? = n.journal.filterMap Note.running?
  decided : m.journal.filterMap Note.decided? = n.journal.filterMap Note.decided?
  calls : m.calls = n.calls

theorem indistinct_of_unobserved (same : m.unobserved = n.unobserved) : Indistinct m n := by
  have view {α : Type} {f : Note → Option α} (silent : ∀ r, f (.logged r) = none) :
      m.journal.filterMap f = n.journal.filterMap f := by
    exact eq_of_unobserved (f := fun m => m.journal.filterMap f)
      (fun m => filterMap_unlogged silent m.journal) same
  exact ⟨eq_of_unobserved (fun _ => rfl) same, view fun _ => rfl, view fun _ => rfl,
    view fun _ => rfl, eq_of_unobserved (fun _ => rfl) same⟩

/-- The same turns are taken and the same moves made in both, in the same order. The observers of
each may clear their records whenever they like. -/
inductive InStep (m n : Machine) : Machine → Machine → Prop
  | start : InStep m n m n
  | turn {m' n' : Machine} (before : InStep m n m' n') : InStep m n m'.step n'.step
  | move {m' n' : Machine} (before : InStep m n m' n') (v : Move) (timely : m'.Timely v) :
    InStep m n (m'.submit v) (n'.submit v)
  | refusedFrame {m' n' : Machine} (before : InStep m n m' n') :
    InStep m n (m'.log [.undecodable]) (n'.log [.undecodable])
  | clear {m' n' m'' n'' : Machine} (before : InStep m n m' n')
    (left : m'' = m' ∨ m'' = m'.clearHistory ∨ m'' = m'.clearEvents)
    (right : n'' = n' ∨ n'' = n'.clearHistory ∨ n'' = n'.clearEvents) : InStep m n m'' n''

theorem InStep.sound (inStep : InStep m n m' n') (h : Unaware m n) : Unaware m' n' := by
  have cleared {m m' : Machine} (clears : m' = m ∨ m' = m.clearHistory ∨ m' = m.clearEvents)
      (unbroken : m.dispatcher.Unbroken) :
      m'.dispatcher.Unbroken ∧ m'.unobserved = m.unobserved := by
    rcases clears with rfl | rfl | rfl <;> exact ⟨unbroken, rfl⟩
  induction inStep with
  | start => exact h
  | turn _ ih => exact ih.step
  | move _ v _ ih => exact ih.submit v
  | refusedFrame _ ih => exact Unaware.lockstep.log ih _
  | clear _ left right ih =>
    obtain ⟨unbroken, same⟩ := cleared left ih.left
    obtain ⟨unbroken', same'⟩ := cleared right ih.right
    exact ⟨unbroken, unbroken', same.trans (ih.same.trans same'.symm)⟩

end Machine

end Lifecycle
