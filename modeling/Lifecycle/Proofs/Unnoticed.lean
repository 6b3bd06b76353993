import Lifecycle.Proofs.ChannelOrder
import Lifecycle.Proofs.Twins

/-! A caller whose dispatch goes on without it gives up unnoticed. Whether it waits or not,
everybody else sees the same: the runs with and without its giving up go side by side, and the
dispatch comes to its commit in both. -/

namespace Lifecycle

theorem ticketOf_unlogged (j : List Note) (call : Nat) :
    ticketOf (unlogged j) call = ticketOf j call := by
  rw [ticketOf, ticketOf, filterMap_unlogged fun _ => rfl]

namespace Machine

variable {d : Dispatcher} {capacity call : Nat} {m m' m'' n n' : Machine}

/-- The next turn is that with which this caller looks what became of its task. -/
def OwnTurn (m : Machine) (call : Nat) : Prop :=
  ∃ command payload ready, m.ready = .report call command payload :: ready

theorem ready_of_not_own (other : ¬ m.OwnTurn call) :
    m.ready = [] ∨ ∃ turn ready, m.ready = turn :: ready ∧
      m.ready.filter (fun turn => !turn.reportsTo call) =
        turn :: ready.filter fun turn => !turn.reportsTo call := by
  cases next : m.ready with
  | nil => exact .inl rfl
  | cons turn ready =>
    refine .inr ⟨turn, ready, rfl, List.filter_cons_of_pos ?_⟩
    cases turn with
    | report c command payload =>
      simp only [Turn.reportsTo, Bool.not_eq_true', beq_eq_false_iff_ne]
      rintro rfl
      exact other ⟨command, payload, ready, next⟩
    | _ => rfl

theorem OwnTurn.busy (own : m.OwnTurn call) : m.isQuiet = false := by
  obtain ⟨command, payload, ready, next⟩ := own
  simp [isQuiet, next]

namespace Twins

theorem own_step (own : m.OwnTurn call) : Twins call m.step m := by
  obtain ⟨command, payload, ready, next⟩ := own
  have picked : Twins call { m with ready } m := by
    refine { refl call m with ready := ?_ }
    rw [next, List.filter_cons_of_neg (by simp [Turn.reportsTo])]
  rw [step_of_ready next]
  exact (answer_own _ _).trans ((log_own _ _).trans picked)

theorem step (h : Twins call m n) (other : ¬ m.OwnTurn call) (other' : ¬ n.OwnTurn call) :
    Twins call m.step n.step := by
  have ready := h.ready
  rcases ready_of_not_own other with none | ⟨turn, rest, next, kept⟩ <;>
    rcases ready_of_not_own other' with none' | ⟨turn', rest', next', kept'⟩
  · unfold Machine.step
    rw [none, none', h.deferred]
    cases n.deferred with
    | nil => exact h
    | cons turn rest =>
      refine take ?_ turn
      exact { h with ready := rfl, deferred := rfl }
  · rw [none, kept'] at ready
    cases ready
  · rw [none', kept] at ready
    cases ready
  · rw [kept, kept'] at ready
    obtain ⟨rfl, same⟩ := List.cons.inj ready
    rw [step_of_ready next, step_of_ready next']
    refine take ?_ turn
    exact { h with ready := same }

theorem isQuiet (h : Twins call m n) (other : ¬ m.OwnTurn call) (other' : ¬ n.OwnTurn call) :
    m.isQuiet = n.isQuiet := by
  have ready := h.ready
  rw [Machine.isQuiet, Machine.isQuiet, h.deferred]
  rcases ready_of_not_own other with none | ⟨turn, rest, next, kept⟩ <;>
    rcases ready_of_not_own other' with none' | ⟨turn', rest', next', kept'⟩
  · rw [none, none']
  · rw [none, kept'] at ready
    cases ready
  · rw [none', kept] at ready
    cases ready
  · rw [next, next']
    rfl

theorem settle (h : Twins call m n) : Twins call m.settle n.settle := by
  generalize total : m.work + n.work = k
  -- Whichever of the two takes a turn, the work that both have left together falls.
  induction k using Nat.strongRecOn generalizing m n with
  | ind k ih =>
    by_cases own : m.OwnTurn call
    · have less := work_step own.busy
      rw [settle_of_busy own.busy]
      exact ih _ (by omega) ((own_step own).trans h) rfl
    by_cases own' : n.OwnTurn call
    · have less := work_step own'.busy
      rw [settle_of_busy own'.busy]
      exact ih _ (by omega) (h.trans (own_step own').symm) rfl
    have same := h.isQuiet own own'
    cases quiet : m.isQuiet with
    | true => rwa [settle_of_quiet quiet, settle_of_quiet (same ▸ quiet)]
    | false =>
      have quiet' : n.isQuiet = false := same ▸ quiet
      have less := work_step quiet
      have less' := work_step quiet'
      rw [settle_of_busy quiet, settle_of_busy quiet']
      exact ih _ (by omega) (h.step own own') rfl

end Twins

/-- The call's dispatch has been handed over: to a task of its own, or to the channel, so that its
request has entered the queue. -/
def HandedOver (m : Machine) (call : Nat) : Prop :=
  ∃ t, ticketOf m.journal call = some t ∧
    (t.seat = .task ∨ t.seat = .worker ∧ .queued call ∈ m.journal)

theorem HandedOver.later (handed : m.HandedOver call) (later : Reaches m m') :
    m'.HandedOver call := by
  obtain ⟨t, known, kind⟩ := handed
  obtain ⟨news, same, -⟩ := later.later.journal
  rw [HandedOver, same]
  exact ⟨t, ticketOf_of_append _ known, kind.imp_right fun ⟨sent, queued⟩ =>
    ⟨sent, List.mem_append_left _ queued⟩⟩

theorem Twins.handedOver (h : Twins call m n) (handed : m.HandedOver call) :
    n.HandedOver call := by
  obtain ⟨t, known, kind⟩ := handed
  refine ⟨t, ?_, kind.imp_right fun ⟨sent, queued⟩ => ⟨sent, ?_⟩⟩
  · rw [← ticketOf_unlogged, ← h.journal, ticketOf_unlogged, known]
  · have seen : .queued call ∈ unlogged m.journal := mem_unlogged.2 ⟨queued, rfl⟩
    rw [h.journal] at seen
    exact (mem_unlogged.1 seen).1

section reachable

variable (h : Reachable d capacity m) (handed : m.HandedOver call)
include h handed

theorem Reachable.abandon_own : Twins call (m.abandon call) m := by
  obtain ⟨t, known, kind⟩ := handed
  obtain rfl := ticketOf_call known
  have detached : t.seat ≠ .caller := by
    rcases kind with own | ⟨own, -⟩ <;> simp [own]
  by_cases waits : m.isPending t.call
  swap
  · rw [abandon_of_not_pending waits]
    exact .refl ..
  have gate : m.gate.withdraw t.call = m.gate := by
    have kept : ∀ u ∈ m.gate.waiting, !(u.call == t.call && u.seat == .caller) := by
      intro u mem
      have ticket : u ∈ m.tickets := by simp [tickets, entrants, mem]
      by_cases same : u.call = t.call
      · rw [h.orderly.eq_of_call known ticket same]
        simpa using detached
      · simp [same]
    rw [Gate.withdraw, List.filter_eq_self.2 kept]
  have channel : m.channel.withdraw t.call = m.channel := by
    have kept : ∀ p ∈ m.channel.waiting, !(p.call == t.call) := by
      intro p mem
      rw [Bool.not_eq_true', beq_eq_false_iff_ne]
      intro same
      have known' := h.ticket_of_waiting mem
      rw [same, known] at known'
      obtain rfl := Option.some.inj known'
      rcases kind with own | ⟨-, queued⟩
      · cases own
      · exact (h.waiting_apart mem).1 (mem_entered.2 queued)
    rw [Channel.withdraw, List.filter_eq_self.2 kept]
  rw [abandon_of_not_held waits (h.not_heldBy known detached), gate, channel]
  refine { Twins.refl t.call m with length := List.length_set, calls := fun c other => ?_ }
  exact List.getElem?_set_ne other.symm

theorem Reachable.carries : ∃ t, ticketOf m.journal call = some t ∧ (t ∈ m.tickets ∨
    (∃ outcome result status, .committed call outcome result status ∈ m.journal) ∨
    t.seat = .worker ∧ m.channel.worker = .gone ∧ .taken call ∉ m.journal) := by
  obtain ⟨t, known, kind⟩ := handed
  obtain rfl := ticketOf_call known
  refine ⟨t, known, ?_⟩
  have detached : t.seat ≠ .caller := by
    rcases kind with own | ⟨own, -⟩ <;> simp [own]
  by_cases taken : t.seat = .worker → .taken t.call ∈ m.journal
  · refine (h.carried known detached fun sent => mem_taken.2 (taken sent)).imp ?_ .inl
    exact fun here => mem_tickets_of_visitor (List.mem_of_mem_filter here)
  obtain ⟨sent, out⟩ := Classical.not_imp.1 taken
  by_cases gone : m.channel.worker = .gone
  · exact .inr (.inr ⟨sent, gone, out⟩)
  have queued := (kind.resolve_left (by simp [sent])).2
  have flow : m.entered = m.journal.filterMap Note.taken? ++ m.channel.queue.map Post.call :=
    h.sound.flow gone
  have entered := mem_entered.2 queued
  rw [flow, List.mem_append] at entered
  obtain ⟨p, inQueue, same⟩ :=
    List.mem_map.1 (entered.resolve_left fun mem => out (mem_taken.1 mem))
  have ticket : p.ticket ∈ m.tickets := by
    simp only [tickets, entrants, List.mem_append]
    exact .inr (.inr (List.mem_map_of_mem (List.mem_append_left _ inQueue)))
  exact .inl (h.orderly.eq_of_call known ticket same ▸ ticket)

end reachable

/-- A step of this caller's own: it looks what became of its task, or gives up. -/
inductive OwnStep (call : Nat) (m : Machine) : Machine → Prop
  | looks (own : m.OwnTurn call) : OwnStep call m m.step
  | givesUp (timely : m.Suspended call) : OwnStep call m (m.submit (.abandon call))

inductive SameStep (call : Nat) (m n : Machine) : Machine → Machine → Prop
  | turn (other : ¬ m.OwnTurn call) (other' : ¬ n.OwnTurn call) : SameStep call m n m.step n.step
  | move (v : Move) (other : v ≠ .abandon call) (timely : m.Timely v) (timely' : n.Timely v) :
    SameStep call m n (m.submit v) (n.submit v)
  | clearHistory : SameStep call m n m.clearHistory n.clearHistory
  | clearEvents : SameStep call m n m.clearEvents n.clearEvents
  | refusedFrame : SameStep call m n (m.log [.undecodable]) (n.log [.undecodable])

/-- Two runs with the same steps of others, in the same order. Those of this caller may be there in
the one and not in the other. -/
inductive Beside (call : Nat) (m n : Machine) : Machine → Machine → Prop
  | start : Beside call m n m n
  | left {m' n' m'' : Machine} (beside : Beside call m n m' n') (own : OwnStep call m' m'') :
    Beside call m n m'' n'
  | right {m' n' n'' : Machine} (beside : Beside call m n m' n') (own : OwnStep call n' n'') :
    Beside call m n m' n''
  | both {m' n' m'' n'' : Machine} (beside : Beside call m n m' n')
    (same : SameStep call m' n' m'' n'') : Beside call m n m'' n''

theorem OwnStep.change (own : OwnStep call m m') : Change m m' := by
  cases own with
  | looks => exact .turn
  | givesUp timely => exact .move (.abandon call) timely

theorem SameStep.changes (same : SameStep call m n m' n') : Change m m' ∧ Change n n' := by
  cases same with
  | turn => exact ⟨.turn, .turn⟩
  | move v other timely timely' => exact ⟨.move v timely, .move v timely'⟩
  | clearHistory => exact ⟨.clearHistory, .clearHistory⟩
  | clearEvents => exact ⟨.clearEvents, .clearEvents⟩
  | refusedFrame => exact ⟨.refusedFrame, .refusedFrame⟩

theorem SameStep.twins (same : SameStep call m n m' n') (h : Twins call m n) :
    Twins call m' n' := by
  cases same with
  | turn other other' => exact h.step other other'
  | move v other => exact h.submit other
  | clearHistory => exact h.clearHistory
  | clearEvents => exact h.clearEvents
  | refusedFrame => exact h.log ..

theorem Reachable.own_step (h : Reachable d capacity m) (handed : m.HandedOver call)
    (own : OwnStep call m m') : Twins call m' m := by
  cases own with
  | looks own => exact .own_step own
  | givesUp => exact h.abandon_own handed

theorem exists_not_own (call : Nat) (n : Machine) :
    ∃ n', Relation.ReflTransGen (OwnStep call) n n' ∧ ¬ n'.OwnTurn call := by
  generalize long : n.work = k
  induction k using Nat.strongRecOn generalizing n with
  | ind k ih =>
    by_cases own : n.OwnTurn call
    · have less := work_step own.busy
      obtain ⟨n', path, other⟩ := ih _ (by omega) n.step rfl
      exact ⟨n', .head (.looks own) path, other⟩
    · exact ⟨n, .refl, own⟩

section beside

variable {m₀ n₀ : Machine}

theorem Beside.rights (h : Beside call m₀ n₀ m n)
    (path : Relation.ReflTransGen (OwnStep call) n n') : Beside call m₀ n₀ m n' := by
  induction path with
  | refl => exact h
  | tail _ own ih => exact ih.right own

theorem Beside.symm (h : Beside call m₀ n₀ m n) : Beside call n₀ m₀ n m := by
  induction h with
  | start => exact .start
  | left _ own ih => exact ih.right own
  | right _ own ih => exact ih.left own
  | both _ same ih =>
    refine ih.both ?_
    cases same with
    | turn other other' => exact .turn other' other
    | move v other timely timely' => exact .move v other timely' timely
    | clearHistory => exact .clearHistory
    | clearEvents => exact .clearEvents
    | refusedFrame => exact .refusedFrame

variable (reachable : Reachable d capacity m₀) (reachable' : Reachable d capacity n₀)
  (twins : Twins call m₀ n₀) (handed : m₀.HandedOver call)
include reachable reachable' twins handed

theorem Beside.sound (h : Beside call m₀ n₀ m n) :
    Reaches m₀ m ∧ Reaches n₀ n ∧ Twins call m n := by
  induction h with
  | start => exact ⟨.refl, .refl, twins⟩
  | left _ own ih =>
    obtain ⟨path, path', same⟩ := ih
    have before := reachable.trans path
    exact ⟨path.tail own.change, path',
      (Reachable.own_step before (handed.later path) own).trans same⟩
  | right _ own ih =>
    obtain ⟨path, path', same⟩ := ih
    have before := reachable'.trans path'
    have handed' := (twins.handedOver handed).later path'
    exact ⟨path, path'.tail own.change,
      same.trans (Reachable.own_step before handed' own).symm⟩
  | both _ step ih =>
    obtain ⟨path, path', same⟩ := ih
    exact ⟨path.tail step.changes.1, path'.tail step.changes.2, step.twins same⟩

/-- Whatever happens in the one run, the other one can go on beside it. -/
theorem Beside.follows (path : Reaches m₀ m) : ∃ n, Beside call m₀ n₀ m n := by
  induction path with
  | refl => exact ⟨n₀, .start⟩
  | @tail m m' path change ih =>
    obtain ⟨n, beside⟩ := ih
    obtain ⟨-, -, same⟩ := beside.sound reachable reachable' twins handed
    cases change with
    | turn =>
      -- The call's own turns are taken on one side alone, and before any other one the other side
      -- takes those that stand in its way.
      by_cases own : m.OwnTurn call
      · exact ⟨n, beside.left (.looks own)⟩
      · obtain ⟨n', path', other⟩ := exists_not_own call n
        exact ⟨n'.step, (beside.rights path').both (.turn own other)⟩
    | move v timely =>
      by_cases own : v = .abandon call
      · subst own
        exact ⟨n, beside.left (.givesUp timely)⟩
      · exact ⟨_, beside.both (.move v own timely (same.timely own timely))⟩
    | clearHistory => exact ⟨_, beside.both .clearHistory⟩
    | clearEvents => exact ⟨_, beside.both .clearEvents⟩
    | refusedFrame => exact ⟨_, beside.both .refusedFrame⟩

end beside

/-- Everybody but this caller sees the same: the status, now and at any time before, the handler
runs with their contexts, the history, the events, what was decided and what others were told. -/
structure Unnoticed (call : Nat) (m n : Machine) : Prop where
  status : m.status = n.status
  published : m.journal.filterMap Note.status? = n.journal.filterMap Note.status?
  runs : m.journal.filterMap Note.running? = n.journal.filterMap Note.running?
  appended : m.appended = n.appended
  history : m.dispatcher.ledger.history = n.dispatcher.ledger.history
  emitted : m.emitted = n.emitted
  sink : m.dispatcher.telemetry.sink = n.dispatcher.telemetry.sink
  decided : m.journal.filterMap Note.decided? = n.journal.filterMap Note.decided?
  others : ∀ c, c ≠ call → m.calls[c]? = n.calls[c]?

theorem Twins.unnoticed (h : Twins call m n) : Unnoticed call m n := by
  have view {α : Type} {f : Note → Option α} (silent : ∀ r, f (.logged r) = none) :
      m.journal.filterMap f = n.journal.filterMap f := by
    rw [← filterMap_unlogged silent, h.journal, filterMap_unlogged silent]
  refine ⟨h.status, view fun _ => rfl, view fun _ => rfl, view fun _ => rfl, ?_,
    view fun _ => rfl, ?_, view fun _ => rfl, h.calls⟩
  · rw [h.dispatcher]
  · rw [h.dispatcher]

def Commits (m : Machine) (call : Nat) : Prop :=
  ∃ outcome result status, .committed call outcome result status ∈ m.journal

def Lost (m : Machine) (call : Nat) : Prop :=
  m.channel.worker = .gone ∧ .queued call ∈ m.journal ∧ .taken call ∉ m.journal

/-- The call's dispatch is on its way to its commit, where it comes at the latest when nothing can
go on and the gate is free. Only with the worker's death a request in the queue gets lost. -/
structure Carried (m : Machine) (call : Nat) : Prop where
  onTheWay : (∃ t ∈ m.tickets, t.call = call) ∨ m.Commits call ∨ m.Lost call
  inTheEnd : m.isQuiet → m.gate.isFree → m.Commits call ∨ m.Lost call

theorem Twins.run (h : Twins call m n) (reachable : Reachable d capacity m)
    (reachable' : Reachable d capacity n) (handed : m.HandedOver call) (quiet : m.isQuiet)
    (quiet' : n.isQuiet) (moves : List Move) : Twins call (m.run moves) (n.run moves) := by
  induction moves generalizing m n with
  | nil => exact h
  | cons v moves ih =>
    have path := reaches_move quiet v
    have path' := reaches_move quiet' v
    refine ih (m := m.move v) (n := n.move v) ?_ (reachable.trans path) (reachable'.trans path')
      (handed.later path) (isQuiet_move m v) (isQuiet_move n v)
    by_cases own : v = .abandon call
    · subst own
      have own := reachable.abandon_own handed
      have own' := reachable'.abandon_own (h.handedOver handed)
      exact Twins.settle (own.trans (h.trans own'.symm))
    · exact Twins.settle (h.submit own)

theorem Reachable.carried_on (h : Reachable d capacity m) (handed : m.HandedOver call) :
    m.Carried call := by
  have way : (∃ t ∈ m.tickets, t.call = call) ∨ m.Commits call ∨ m.Lost call := by
    obtain ⟨t, known, ticket | committed | ⟨sent, gone, out⟩⟩ := h.carries handed
    · exact .inl ⟨t, ticket, ticketOf_call known⟩
    · exact .inr (.inl committed)
    · obtain ⟨u, known', kind⟩ := handed
      cases known.symm.trans known'
      exact .inr (.inr ⟨gone, (kind.resolve_left (by simp [sent])).2, out⟩)
  refine ⟨way, fun quiet free => way.resolve_left ?_⟩
  rintro ⟨t, ticket, -⟩
  rw [(h.tickets_eq_nil quiet free).1] at ticket
  cases ticket

/-- Whoever gives up a dispatch that was handed over is noticed by nobody, whenever it does so: all
that happens then may happen as well if it does not give up, step by step and the same to everybody
else, and the other way round. In particular this is so if everything settles after each move. And
the dispatch goes on to its commit, whether or not anybody waits for it. -/
theorem abandonment_unnoticed (d : Dispatcher) (capacity call : Nat) :
    (∀ before after, ((start d capacity).run before).HandedOver call →
      Unnoticed call ((start d capacity).run (before ++ .abandon call :: after))
        ((start d capacity).run (before ++ after))) ∧
    ∀ m, Reachable d capacity m → m.HandedOver call → m.Suspended call →
      (∀ m' n', Beside call (m.submit (.abandon call)) m m' n' →
        Reaches (m.submit (.abandon call)) m' ∧ Reaches m n' ∧ Unnoticed call m' n') ∧
      (∀ m', Reaches (m.submit (.abandon call)) m' →
        ∃ n', Beside call (m.submit (.abandon call)) m m' n') ∧
      (∀ n', Reaches m n' → ∃ m', Beside call (m.submit (.abandon call)) m m' n') ∧
      ∀ m', Reaches m m' ∨ Reaches (m.submit (.abandon call)) m' → m'.Carried call := by
  refine ⟨fun before after handed => ?_, fun m h handed suspended => ?_⟩
  · have reachable := reachable_run d capacity before
    have quiet := isQuiet_run d capacity before
    have path := reaches_move quiet (.abandon call)
    have gives : Twins call (((start d capacity).run before).move (.abandon call))
        ((start d capacity).run before) := by
      have settled := (reachable.abandon_own handed).settle
      rwa [settle_of_quiet quiet] at settled
    rw [run, run, List.foldl_append, List.foldl_append, List.foldl_cons]
    exact (gives.run (reachable.trans path) reachable (handed.later path) (isQuiet_move ..) quiet
      after).unnoticed
  · have change : Change m (m.submit (.abandon call)) := .move (.abandon call) suspended
    have gives : Twins call (m.submit (.abandon call)) m := h.abandon_own handed
    have after : Reachable d capacity (m.submit (.abandon call)) := h.tail change
    have handed' := handed.later (.single change)
    refine ⟨fun m' n' beside => ?_, fun m' path => ?_, fun n' path => ?_, fun m' path => ?_⟩
    · obtain ⟨path, path', same⟩ := beside.sound after h gives handed'
      exact ⟨path, path', same.unnoticed⟩
    · exact Beside.follows after h gives handed' path
    · obtain ⟨m', beside⟩ := Beside.follows h after gives.symm handed path
      exact ⟨m', beside.symm⟩
    · rcases path with path | path
      · exact Reachable.carried_on (h.trans path) (handed.later path)
      · exact Reachable.carried_on (after.trans path) (handed'.later path)

/-- Somebody starts, and the handler blocks. Somebody else sends a stop and gives up, and a third
one waits at the gate. When the start goes on, the stop follows and the third one is told of it, as
if the second one had waited. -/
theorem abandonment_unnoticed_of_queued_stop :
    ∃ before after : List Move,
      Unnoticed 1 ((start .patient 1).run (before ++ .abandon 1 :: after))
        ((start .patient 1).run (before ++ after)) ∧
      ((start .patient 1).run (before ++ .abandon 1 :: after)).state = .stopped ∧
      ((start .patient 1).run (before ++ .abandon 1 :: after)).calls[1]? = some .abandoned ∧
      ∀ m, Reaches (((start .patient 1).run before).submit (.abandon 1)) m → m.Carried 1 := by
  obtain ⟨before, same⟩ : ∃ before : List Move, before =
      [.dispatch .detached .start .empty, .dispatch .queued .stop .empty,
        .dispatch .attached .healthCheck .empty] := ⟨_, rfl⟩
  have sent : ((start .patient 1).run before).HandedOver 1 := by
    rw [same]
    exact ⟨⟨1, .worker, .dispatch .stop .empty⟩, rfl,
      .inr ⟨rfl, List.mem_of_getElem? (i := 4) rfl⟩⟩
  have suspended : ((start .patient 1).run before).Suspended 1 :=
    suspended_of_quiet (isQuiet_run ..) 1
  obtain ⟨whole, step⟩ := abandonment_unnoticed .patient 1 1
  obtain ⟨-, -, -, carried⟩ := step _ (reachable_run .patient 1 before) sent suspended
  refine ⟨before, [.release 3], whole before _ sent, ?_, ?_, fun m path => carried m (.inr path)⟩
  · rw [same]
    rfl
  · rw [same]
    rfl

end Machine

end Lifecycle
