import Lifecycle.Proofs.Effects
import Lifecycle.Proofs.Lockstep

/-! Machines that differ only in what becomes of one caller. They have everything in common but its
progress, the turns with which it looks what became of its task, and the records of the log;
whatever is done to both of them, they stay so. -/

namespace Lifecycle

/-- Whether it is this caller that looks with a turn what became of its task. -/
def Turn.reportsTo (call : Nat) : Turn → Bool
  | .report c .. => c == call
  | _ => false

def unlogged (j : List Note) : List Note := j.filter fun n => n.record?.isNone

theorem unlogged_append (j k : List Note) : unlogged (j ++ k) = unlogged j ++ unlogged k :=
  List.filter_append ..

theorem unlogged_logs (records : List LogRecord) : unlogged (records.map .logged) = [] := by
  refine List.filter_eq_nil_iff.2 fun n mem => ?_
  obtain ⟨record, -, rfl⟩ := List.mem_map.1 mem
  simp [Note.record?]

theorem mem_unlogged {j : List Note} {n : Note} :
    n ∈ unlogged j ↔ n ∈ j ∧ n.record? = none := by
  simp [unlogged]

theorem filterMap_unlogged {α : Type} {f : Note → Option α} (silent : ∀ r, f (.logged r) = none)
    (j : List Note) : (unlogged j).filterMap f = j.filterMap f := by
  rw [unlogged, List.filterMap_filter]
  refine congrArg (List.filterMap · j) (funext fun n => ?_)
  cases n <;> simp [Note.record?, silent]

namespace Machine

/-- Everybody but this caller finds the same in both. -/
structure Twins (call : Nat) (m n : Machine) : Prop where
  dispatcher : m.dispatcher = n.dispatcher
  channel : m.channel = n.channel
  gate : m.gate = n.gate
  permits : m.permits = n.permits
  ready : m.ready.filter (fun turn => !turn.reportsTo call) =
    n.ready.filter fun turn => !turn.reportsTo call
  deferred : m.deferred = n.deferred
  length : m.calls.length = n.calls.length
  calls : ∀ c, c ≠ call → m.calls[c]? = n.calls[c]?
  journal : unlogged m.journal = unlogged n.journal

variable {call : Nat} {m n k : Machine}

namespace Twins

theorem refl (call : Nat) (m : Machine) : Twins call m m :=
  ⟨rfl, rfl, rfl, rfl, rfl, rfl, rfl, fun _ _ => rfl, rfl⟩

theorem symm (h : Twins call m n) : Twins call n m :=
  ⟨h.dispatcher.symm, h.channel.symm, h.gate.symm, h.permits.symm, h.ready.symm, h.deferred.symm,
    h.length.symm, fun c other => (h.calls c other).symm, h.journal.symm⟩

theorem trans (h : Twins call m n) (h' : Twins call n k) : Twins call m k :=
  ⟨h.dispatcher.trans h'.dispatcher, h.channel.trans h'.channel, h.gate.trans h'.gate,
    h.permits.trans h'.permits, h.ready.trans h'.ready, h.deferred.trans h'.deferred,
    h.length.trans h'.length, fun c other => (h.calls c other).trans (h'.calls c other),
    h.journal.trans h'.journal⟩

theorem answer_own (m : Machine) (a : Answer) : Twins call (m.answer call a) m := by
  obtain ⟨calls, same, -, told⟩ := m.answer_eq call a
  rw [same]
  refine { refl call m with length := told.length, calls := fun c other => ?_ }
  refine (told.each c).resolve_right ?_
  rintro ⟨-, -, ⟨this, -⟩, -⟩
  exact other this

theorem log_own (m : Machine) (records : List LogRecord) : Twins call (m.log records) m := by
  refine { refl call m with journal := ?_ }
  change unlogged (m.journal ++ records.map .logged) = _
  rw [unlogged_append, unlogged_logs, List.append_nil]

theorem wake_own (m : Machine) {turn : Turn} (own : turn.reportsTo call) :
    Twins call (m.wake turn) m := by
  refine { refl call m with ready := ?_ }
  change (m.ready ++ [turn]).filter _ = _
  rw [List.filter_append, List.filter_cons_of_neg (by simp [own]), List.filter_nil,
    List.append_nil]

theorem withDispatcher (h : Twins call m n) (d : Dispatcher) :
    Twins call { m with dispatcher := d } { n with dispatcher := d } := { h with dispatcher := rfl }

theorem note (h : Twins call m n) (x : Note) : Twins call (m.note x) (n.note x) := by
  refine { h with journal := ?_ }
  change unlogged (m.journal ++ [x]) = unlogged (n.journal ++ [x])
  rw [unlogged_append, unlogged_append, h.journal]

theorem log (h : Twins call m n) (records records' : List LogRecord) :
    Twins call (m.log records) (n.log records') :=
  (log_own m records).trans (h.trans (log_own n records').symm)

theorem record (h : Twins call m n) (c : Nat) (r : Result) (e : Event) :
    Twins call (m.record c r e).1 (n.record c r e).1 ∧
      (m.record c r e).2 = (n.record c r e).2 := by
  unfold Machine.record
  rw [h.dispatcher]
  rcases n.dispatcher.ledger.append r with ⟨ledger, payload | ⟨⟩⟩
  · exact ⟨h.withDispatcher _, rfl⟩
  · have kept := (h.withDispatcher { n.dispatcher with ledger }).note (.appended c r)
    dsimp only [Machine.note]
    rcases n.dispatcher.telemetry.emit e with ⟨telemetry, payload | logs⟩
    · exact ⟨kept.withDispatcher { n.dispatcher with ledger, telemetry }, rfl⟩
    · have heard := kept.withDispatcher { n.dispatcher with ledger, telemetry }
      exact ⟨(heard.note _).log _ _, rfl⟩

theorem unheard (call : Nat) : Unheard (Twins call) call where
  answer h a := ⟨(answer_own _ a).trans h, h.trans (answer_own _ a).symm⟩
  log h records := ⟨(log_own _ records).trans h, h.trans (log_own _ records).symm⟩
  wake h command payload :=
    have own : (Turn.report call command payload).reportsTo call := by simp [Turn.reportsTo]
    ⟨(wake_own _ own).trans h, h.trans (wake_own _ own).symm⟩

theorem isPending (h : Twins call m n) {c : Nat} (other : c ≠ call) :
    m.isPending c = n.isPending c := by
  rw [Machine.isPending, Machine.isPending, h.calls c other]

theorem lockstep (call : Nat) : Lockstep (Twins call) where
  channel h := h.channel
  gate h := h.gate
  permits h := h.permits
  status h := congrArg Dispatcher.status h.dispatcher
  length h := h.length
  runs {m n} h command := by
    have kept (j : List Note) :
        (unlogged j).countP (Note.isRunOf command) = j.countP (Note.isRunOf command) := by
      rw [unlogged, List.countP_filter]
      refine List.countP_congr fun x _ => ?_
      cases x <;> simp [Note.record?, Note.isRunOf]
    rw [Machine.runs, Machine.runs, ← kept, h.journal, kept]
  hasRoom {m n} h := by
    have kept (ts : List Turn) : (ts.filter fun turn => !turn.reportsTo call).countP Turn.isPlace =
        ts.countP Turn.isPlace := by
      rw [List.countP_filter]
      refine List.countP_congr fun turn _ => ?_
      cases turn <;> simp [Turn.reportsTo, Turn.isPlace]
    rw [Machine.hasRoom, Machine.hasRoom, List.countP_append, List.countP_append, ← kept m.ready,
      ← kept n.ready, h.ready, h.deferred, h.channel]
  isBlocked {m n} h := by
    have kept (ts : List Turn) : (ts.filter fun turn => !turn.reportsTo call).any Turn.isProceed =
        ts.any Turn.isProceed := by
      rw [List.any_filter]
      refine congrArg _ (funext fun turn => ?_)
      cases turn <;> simp [Turn.reportsTo, Turn.isProceed]
    rw [Machine.isBlocked, Machine.isBlocked, List.any_append, List.any_append, ← kept m.ready,
      ← kept n.ready, h.ready, h.deferred, h.gate]
  isPending h c := by
    by_cases own : c = call
    · exact .inr (own ▸ unheard call)
    · exact .inl (h.isPending own)
  withChannel h _ := { h with channel := rfl }
  withGate h _ := { h with gate := rfl }
  withPermits h _ := { h with permits := rfl }
  setStatus h s := by
    rw [Machine.setStatus, Machine.setStatus, h.dispatcher]
    exact h.withDispatcher _
  note h x _ := h.note x
  log h records := h.log records records
  wake {m n} h turn := by
    refine { h with ready := ?_ }
    change (m.ready ++ [turn]).filter _ = (n.ready ++ [turn]).filter _
    rw [List.filter_append, List.filter_append, h.ready]
  resume {m n} h turn := by
    refine { h with ready := ?_ }
    change (turn :: m.ready).filter _ = (turn :: n.ready).filter _
    rw [List.filter_cons, List.filter_cons, h.ready]
  putOff h turn := { h with deferred := congrArg (turn :: ·) h.deferred }
  setProgress {m n} h c p := by
    refine { h with
      length := List.length_set.trans (h.length.trans List.length_set.symm)
      calls := fun c' other => ?_ }
    change (m.calls.set c p)[c']? = (n.calls.set c p)[c']?
    rw [List.getElem?_set, List.getElem?_set, h.length, h.calls c' other]
  opened h := by
    refine { h with length := by simp [h.length], calls := fun c other => ?_ }
    simp only [List.getElem?_append, h.length, h.calls c other]
  recordCost h := by rw [Machine.recordCost, Machine.recordCost, h.dispatcher]
  record h := h.record

variable (h : Twins call m n)
include h

theorem status : m.status = n.status := (lockstep call).status h

theorem take (turn : Turn) : Twins call (m.take turn) (n.take turn) :=
  (lockstep call).take h fun _ _ _ _ _ _ => by rw [h.dispatcher]

theorem submit {v : Move} (other : v ≠ .abandon call) : Twins call (m.submit v) (n.submit v) :=
  (lockstep call).submit h fun _ same => h.isPending fun own => other (own ▸ same)

theorem clearHistory : Twins call m.clearHistory n.clearHistory := by
  unfold Machine.clearHistory
  rw [h.dispatcher]
  exact h.withDispatcher _

theorem clearEvents : Twins call m.clearEvents n.clearEvents := by
  unfold Machine.clearEvents
  rw [h.dispatcher]
  exact h.withDispatcher _

theorem suspended {c : Nat} (other : c ≠ call) (waits : m.Suspended c) : n.Suspended c := by
  intro turn mem
  have owns : m.owns c turn = n.owns c turn := by
    cases turn <;> simp [Machine.owns, h.gate]
  rw [← owns]
  cases own : turn.reportsTo call with
  | true =>
    cases turn with
    | report c' =>
      have this : c' = call := by simpa [Turn.reportsTo] using own
      simp [Machine.owns, this, other.symm]
    | _ => cases own
  | false =>
    refine waits turn ?_
    have kept : turn ∈ n.ready ↔ turn ∈ m.ready := by
      have same : turn ∈ n.ready.filter (fun turn => !turn.reportsTo call) ↔
          turn ∈ m.ready.filter fun turn => !turn.reportsTo call := by rw [h.ready]
      simpa [List.mem_filter, own] using same
    rw [turns, List.mem_append] at mem ⊢
    rwa [← kept, h.deferred]

theorem timely {v : Move} (other : v ≠ .abandon call) (timely : m.Timely v) : n.Timely v := by
  cases v with
  | abandon c => exact h.suspended (fun same => other (congrArg Move.abandon same)) timely
  | _ => trivial

end Twins

end Machine

end Lifecycle
