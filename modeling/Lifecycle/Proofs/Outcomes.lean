import Lifecycle.Proofs.Results
import Lifecycle.Proofs.Heard
import Lifecycle.Proofs.Sessions
import Lifecycle.Proofs.Visits
import Mathlib.Data.List.Perm.Basic

/-! One outcome for each request, and each for its own caller. If nothing breaks down, the results
in the history belong one to one to the dispatches that are done; the callers of these are told
them, or gave up; and of the handlers that began, each ended with such a result, was given up by its
caller, or is blocked. -/

namespace Lifecycle

def Result.ofHandler (r : Result) : Bool :=
  r.success || r.errorKind == some .handlerFailure || r.errorKind == some .contractViolation

theorem Transition.kind_of_resolve {t : Transition} {command : Command} {previous fallback : State}
    {failure : Failure} (h : t.resolve command previous fallback = .error failure) :
    failure.kind = .contractViolation := by
  have named {s : State} (h : resolve.permitted command previous s = .error failure) :
      failure.kind = .contractViolation := by
    unfold resolve.permitted at h
    split at h <;> cases h
    rfl
  cases t with
  | default => cases h
  | moveTo s => exact named h
  | code n =>
    rw [resolve] at h
    split at h
    · exact named h
    · cases h
      rfl

theorem Outcome.ofHandler_decide (o : Outcome) (command : Command) (previous fallback : State) :
    ((o.decide command previous fallback).result command previous).ofHandler := by
  unfold decide
  split
  · split
    · rfl
    · next failed =>
      have kind := Transition.kind_of_resolve failed
      simp [Decision.result, Result.failed, Result.ofHandler, kind]
  · rfl
  · rfl

theorem Dispatcher.not_ofHandler_of_refused {d : Dispatcher} {command : Command} {failure : Failure}
    (h : d.prepare command = .error failure) (s : State) :
    ((Decision.refuse failure).result command s).ofHandler = false := by
  unfold prepare at h
  split at h
  · cases h
    rfl
  · split at h <;> cases h
    rfl

theorem Dispatcher.ofHandler_of_decision {d : Dispatcher} {s : Status} {command : Command}
    {outcome : Option Outcome} {decision : Decision}
    (h : d.decision? s command outcome = some decision) :
    (decision.result command s.state).ofHandler = outcome.isSome := by
  unfold Dispatcher.decision? at h
  split at h
  · next refused => cases h; exact Dispatcher.not_ofHandler_of_refused refused _
  · next o _ => cases h; exact o.ofHandler_decide ..
  · cases h

namespace Machine

def outcomes (m : Machine) : List (Nat × Result) := m.journal.filterMap Note.outcome?

/-- A ticket with which a command is dispatched, and which has come as far as that: a request
through the channel only when the worker has taken it. -/
def Reached (m : Machine) (t : Ticket) : Prop :=
  (∃ command args, t.work = .dispatch command args) ∧
    (t.seat = .worker → .taken t.call ∈ m.journal)

def GaveUp (m : Machine) (t : Ticket) : Prop :=
  t.seat = .caller ∧ m.calls[t.call]? = some .abandoned

/-- Whether the caller of a dispatch in its own time gave up when the handler had begun. -/
def gaveUpInside (m : Machine) (call : Nat) : Bool :=
  m.calls[call]? == some .abandoned && (ticketOf m.journal call).any (·.seat == .caller) &&
    (m.journal.filterMap Note.run?).contains call

variable {d : Dispatcher} {capacity : Nat} {m : Machine} {t : Ticket} {call : Nat} {r : Result}

theorem map_snd_outcomes (m : Machine) : m.outcomes.map Prod.snd = m.appended := by
  rw [outcomes, List.map_filterMap, appended]
  exact List.filterMap_congr fun n _ => by cases n <;> rfl

theorem mem_decided : (call, r) ∈ m.journal.filterMap Note.decided? ↔
    ∃ outcome status, .committed call outcome r status ∈ m.journal := by
  rw [List.mem_filterMap]
  constructor
  · rintro ⟨n, mem, same⟩
    cases n <;> cases same
    exact ⟨_, _, mem⟩
  · exact fun ⟨_, _, mem⟩ => ⟨_, mem, rfl⟩

theorem mem_run : call ∈ m.journal.filterMap Note.run? ↔
    ∃ context observed, .ran call context observed ∈ m.journal := by
  rw [List.mem_filterMap]
  constructor
  · rintro ⟨n, mem, same⟩
    cases n <;> cases same
    exact ⟨_, _, mem⟩
  · exact fun ⟨_, _, mem⟩ => ⟨_, mem, rfl⟩

theorem mem_taken : call ∈ m.journal.filterMap Note.taken? ↔ .taken call ∈ m.journal := by
  rw [List.mem_filterMap]
  constructor
  · rintro ⟨n, mem, same⟩
    cases n <;> cases same
    exact mem
  · exact fun mem => ⟨_, mem, rfl⟩

theorem Tracked.inside_of_admitted (h : m.Orderly) (mem : t ∈ m.tickets)
    (admitted : .admitted t.call ∈ m.journal) : m.gate.ticket? = some t := by
  rcases List.mem_append.1 mem with inside | out
  · simpa using inside
  · exact absurd admitted (h.fresh t out)

section unbroken

variable (h : Reachable d capacity m) (unbroken : d.Unbroken)
include h

theorem Reachable.admitted_of_committed {outcome : Option Outcome} {status : Status}
    (mem : .committed call outcome r status ∈ m.journal) : .admitted call ∈ m.journal :=
  h.lawful.admitted_of_contributor mem rfl

theorem Reachable.ofHandler_eq {outcome : Option Outcome} {status : Status}
    (mem : .committed call outcome r status ∈ m.journal) : r.ofHandler = outcome.isSome := by
  obtain ⟨_, _, _, did, rfl, -⟩ := h.lawful.did mem
  obtain ⟨outcome', r', mem', decided, -⟩ := did.decided
  cases h.lawful.published_once mem mem' rfl rfl
  exact Dispatcher.ofHandler_of_decision decided

include unbroken

theorem Reachable.decided_eq :
    m.outcomes ++ m.gate.phase.due?.toList = m.journal.filterMap Note.decided? :=
  h.lawful.outcomes_eq unbroken

theorem Reachable.outcomes_nodup : (m.outcomes.map Prod.fst).Nodup := by
  have once := h.lawful.decided_nodup
  rw [← h.decided_eq unbroken, List.map_append] at once
  exact once.of_append_left

theorem Reachable.done_of_outcome (mem : (call, r) ∈ m.outcomes) :
    (∃ outcome status, .committed call outcome r status ∈ m.journal) ∧
      ∀ t ∈ m.tickets, t.call ≠ call := by
  have decided : (call, r) ∈ m.journal.filterMap Note.decided? :=
    h.decided_eq unbroken ▸ List.mem_append_left _ mem
  obtain ⟨outcome, status, committed⟩ := mem_decided.1 decided
  refine ⟨⟨outcome, status, committed⟩, ?_⟩
  rintro t ticket rfl
  have inside := h.orderly.inside_of_admitted ticket (h.admitted_of_committed committed)
  have lawful := h.lawful
  obtain ⟨stage, held⟩ := Gate.ticket?_eq_some.1 inside
  have once := h.lawful.decided_nodup
  rw [← h.decided_eq unbroken, List.map_append, Gate.phase, held] at once
  cases stage with
  | published r e =>
    refine List.disjoint_of_nodup_append once (List.mem_map_of_mem mem) ?_
    simp [Holding.phase, Phase.due?]
  | admitted | running =>
    have inside : m.gate.phase.ticket? = some t := m.gate.phase_ticket?.trans inside
    exact lawful.undecided_silent inside (by rw [Gate.phase, held]; rfl) _ committed rfl

theorem Reachable.outcome_of_committed {outcome : Option Outcome} {status : Status}
    (known : ticketOf m.journal t.call = some t) (out : t ∉ m.tickets)
    (mem : .committed t.call outcome r status ∈ m.journal) : (t.call, r) ∈ m.outcomes := by
  have decided := mem_decided.2 ⟨outcome, status, mem⟩
  rw [← h.decided_eq unbroken, List.mem_append] at decided
  refine decided.resolve_right fun due => out ?_
  cases held : m.gate.holder with
  | none => simp [Gate.phase, held, Phase.due?] at due
  | some holding =>
    have ticket : holding.ticket ∈ m.tickets := by simp [tickets, Gate.ticket?, held]
    have same : holding.ticket.call = t.call := by
      obtain ⟨u, _ | _ | _⟩ := holding <;>
        simp [Gate.phase, held, Holding.phase, Phase.due?] at due
      exact due.1.symm
    exact h.orderly.eq_of_call known ticket same ▸ ticket

theorem Reachable.committed_of_reached (known : ticketOf m.journal t.call = some t)
    (reached : m.Reached t) (out : t ∉ m.tickets) (kept : ¬ m.GaveUp t) :
    ∃ outcome result status, .committed t.call outcome result status ∈ m.journal := by
  have opened := mem_of_ticketOf known
  cases now : m.calls[t.call]? with
  | none =>
    have inRange := h.orderly.numbered t opened
    rw [List.getElem?_eq_none_iff] at now
    omega
  | some p =>
    cases p with
    | pending =>
      rcases h.orderly.waits t opened (isPending_iff.2 now) with mem | ⟨command, payload, mem⟩
      · exact absurd mem out
      · exact absurd (h.warranted.reports _ _ _ mem).breaks (unbroken.never _)
    | abandoned =>
      have detached : t.seat ≠ .caller := fun own => kept ⟨own, now⟩
      refine (h.carried known detached fun sent => mem_taken.2 (reached.2 sent)).resolve_left ?_
      exact fun here => out (mem_tickets_of_visitor (List.mem_of_mem_filter here))
    | answered a =>
      rcases (h.warranted.answers _ a now).published unbroken with
        ⟨outcome, r, status, mem, -⟩ | ⟨status, mem⟩
      · exact ⟨outcome, r, status, mem⟩
      · obtain ⟨u, state, known', forces⟩ := h.lawful.arranged_ticket mem
        obtain ⟨⟨command, args, dispatches⟩, -⟩ := reached
        cases known.symm.trans known'
        cases dispatches.symm.trans forces

/-- A result stands in the history exactly for each dispatch that came as far as that, is not under
way any more and was not given up by its own caller. -/
theorem Reachable.mem_outcomes_iff : call ∈ m.outcomes.map Prod.fst ↔ ∃ t,
    ticketOf m.journal call = some t ∧ m.Reached t ∧ t ∉ m.tickets ∧ ¬ m.GaveUp t := by
  constructor
  · intro mem
    obtain ⟨⟨call, r⟩, entry, rfl⟩ := List.mem_map.1 mem
    obtain ⟨⟨outcome, status, committed⟩, gone⟩ := h.done_of_outcome unbroken entry
    obtain ⟨command, _, _, did, -, -⟩ := h.lawful.did committed
    obtain ⟨t, args, known, work⟩ := did.ticket
    obtain rfl := ticketOf_call known
    refine ⟨t, known, ⟨⟨command, args, work⟩, fun sent => ?_⟩, fun mem => gone t mem rfl,
      fun gave => ?_⟩
    · exact mem_taken.1 (h.taken_of_admitted known sent (h.admitted_of_committed committed))
    · exact h.mute t known gave.1 gave.2 _ committed rfl
  · rintro ⟨t, known, reached, out, kept⟩
    cases ticketOf_call known
    obtain ⟨outcome, result, status, committed⟩ :=
      h.committed_of_reached unbroken known reached out kept
    exact List.mem_map_of_mem (h.outcome_of_committed unbroken known out committed)

theorem Reachable.told_of_outcome (mem : (call, r) ∈ m.outcomes) :
    m.calls[call]? = some (.answered (.result r)) ∨ m.calls[call]? = some .abandoned := by
  obtain ⟨⟨outcome, status, committed⟩, gone⟩ := h.done_of_outcome unbroken mem
  refine (h.heard unbroken _ committed call _ rfl).resolve_right ?_
  rintro ⟨holding, held, same⟩
  exact gone holding.ticket (by simp [tickets, Gate.ticket?, held]) same

theorem Reachable.outcome_of_told {a : Answer} (told : m.calls[call]? = some (.answered a)) :
    (∃ r, a = .result r ∧ (call, r) ∈ m.outcomes) ∨
      ∃ t state, ticketOf m.journal call = some t ∧ t.work = .arrange state := by
  rcases (h.warranted.answers call a told).published unbroken with
    ⟨outcome, r, status, mem, rfl⟩ | ⟨status, mem⟩
  · obtain ⟨_, _, _, did, -, -⟩ := h.lawful.did mem
    obtain ⟨t, args, known, work⟩ := did.ticket
    cases ticketOf_call known
    refine .inl ⟨r, rfl, h.outcome_of_committed unbroken known (fun ticket => ?_) mem⟩
    rcases h.orderly.unanswered t ticket with waits | ⟨-, gave⟩
    · cases (isPending_iff.1 waits).symm.trans told
    · cases gave.symm.trans told
  · exact .inr (h.lawful.arranged_ticket mem)

theorem Reachable.pending_iff (known : ticketOf m.journal t.call = some t) :
    m.isPending t.call ↔ t ∈ m.tickets ∧ m.calls[t.call]? ≠ some .abandoned := by
  constructor
  · intro waits
    refine ⟨?_, by simp [isPending_iff.1 waits]⟩
    refine (h.orderly.waits t (mem_of_ticketOf known) waits).resolve_right ?_
    rintro ⟨command, payload, mem⟩
    exact absurd (h.warranted.reports _ _ _ mem).breaks (unbroken.never _)
  · rintro ⟨ticket, still⟩
    exact (h.orderly.unanswered t ticket).resolve_right fun gave => still gave.2

omit unbroken in
theorem Reachable.ran_of_held (quiet : m.isQuiet) (inside : m.gate.ticket? = some t) :
    t.call ∈ m.journal.filterMap Note.run? := by
  obtain ⟨stage, held⟩ := Gate.ticket?_eq_some.1 inside
  obtain ⟨⟨r, run, -⟩, -⟩ := h.attended.blocked held (by simp [isQuiet_iff_turns.1 quiet])
  obtain rfl : stage = .running r := run
  have lawful := h.lawful
  simp only [Gate.phase, held, Holding.phase] at lawful
  obtain ⟨-, args, handler, before, since, -, -, same, -⟩ := lawful.of_running
  exact mem_run.2 ⟨_, _, same ▸ List.mem_append_right _ List.mem_cons_self⟩

omit unbroken in
theorem Reachable.ran_of_committed {outcome : Option Outcome} {status : Status}
    (mem : .committed call outcome r status ∈ m.journal) (kind : r.ofHandler) :
    call ∈ m.journal.filterMap Note.run? := by
  cases outcome with
  | none => cases (h.ofHandler_eq mem).symm.trans kind
  | some o =>
    obtain ⟨before, since, context, observed, _, same, -⟩ := h.lawful.ran mem
    exact mem_run.2 ⟨context, observed, by simp [same]⟩

theorem Reachable.outcome_of_ran {context : Context} {observed : Bool}
    (known : ticketOf m.journal t.call = some t)
    (mem : .ran t.call context observed ∈ m.journal) (out : t ∉ m.tickets)
    (kept : ¬ m.GaveUp t) : ∃ r, (t.call, r) ∈ m.outcomes ∧ r.ofHandler := by
  obtain ⟨u, known', work⟩ := h.lawful.ran_ticket mem
  cases known.symm.trans known'
  have admitted := h.lawful.admitted_of_run mem rfl
  have reached : m.Reached t :=
    ⟨⟨_, _, work⟩, fun sent => mem_taken.1 (h.taken_of_admitted known sent admitted)⟩
  obtain ⟨outcome, r, status, committed⟩ :=
    h.committed_of_reached unbroken known reached out kept
  cases outcome with
  | none => exact absurd rfl (h.lawful.not_run_of_refused committed _ mem)
  | some o =>
    exact ⟨r, h.outcome_of_committed unbroken known out committed, h.ofHandler_eq committed⟩

theorem Reachable.run_iff (quiet : m.isQuiet) : call ∈ m.journal.filterMap Note.run? ↔
    call ∈ (m.outcomes.filter fun x => x.2.ofHandler).map Prod.fst ++
      ((List.range m.calls.length).filter m.gaveUpInside ++
        (m.gate.ticket?.map Ticket.call).toList) := by
  simp only [List.mem_append]
  constructor
  · intro ran
    obtain ⟨context, observed, mem⟩ := mem_run.1 ran
    obtain ⟨t, known, work⟩ := h.lawful.ran_ticket mem
    obtain rfl := ticketOf_call known
    by_cases ticket : t ∈ m.tickets
    · have inside := h.orderly.inside_of_admitted ticket (h.lawful.admitted_of_run mem rfl)
      exact .inr (.inr (by simp [inside]))
    by_cases gave : m.GaveUp t
    · refine .inr (.inl (List.mem_filter.2 ⟨List.mem_range.2 ?_, ?_⟩))
      · exact h.orderly.numbered t (mem_of_ticketOf known)
      · simpa [gaveUpInside, known, gave.1, gave.2] using ran
    · obtain ⟨r, entry, kind⟩ := h.outcome_of_ran unbroken known mem ticket gave
      exact .inl (List.mem_map_of_mem (List.mem_filter.2 ⟨entry, kind⟩))
  · rintro (mem | mem | mem)
    · obtain ⟨⟨call, r⟩, entry, rfl⟩ := List.mem_map.1 mem
      obtain ⟨entry, kind⟩ := List.mem_filter.1 entry
      obtain ⟨⟨outcome, status, committed⟩, -⟩ := h.done_of_outcome unbroken entry
      exact h.ran_of_committed committed kind
    · have gave := (List.mem_filter.1 mem).2
      simp only [gaveUpInside, Bool.and_eq_true, List.contains_iff_mem] at gave
      exact gave.2
    · obtain ⟨t, inside, rfl⟩ := Option.map_eq_some_iff.1 (Option.mem_toList.1 mem)
      exact h.ran_of_held quiet inside

omit unbroken in
theorem Reachable.isBlocked_iff (quiet : m.isQuiet) : m.isBlocked = m.gate.ticket?.isSome := by
  have turns : m.ready ++ m.deferred = [] := isQuiet_iff_turns.1 quiet
  cases held : m.gate.holder with
  | none => simp [isBlocked, Gate.blocked?, Gate.ticket?, held]
  | some x =>
    obtain ⟨⟨r, run, -⟩, -⟩ := h.attended.blocked held (by simp [isQuiet_iff_turns.1 quiet])
    simp [isBlocked, Gate.blocked?, Gate.ticket?, held, run, turns]

theorem Reachable.accounts_nodup : ((m.outcomes.filter fun x => x.2.ofHandler).map Prod.fst ++
    ((List.range m.calls.length).filter m.gaveUpInside ++
      (m.gate.ticket?.map Ticket.call).toList)).Nodup := by
  have outcomes : ((m.outcomes.filter fun x => x.2.ofHandler).map Prod.fst).Nodup :=
    (h.outcomes_nodup unbroken).sublist (List.filter_sublist.map _)
  have gave {call : Nat} (mem : call ∈ (List.range m.calls.length).filter m.gaveUpInside) :
      ∃ t, ticketOf m.journal call = some t ∧ m.GaveUp t := by
    have given := (List.mem_filter.1 mem).2
    simp only [gaveUpInside, Bool.and_eq_true, beq_iff_eq, Option.any_eq_true] at given
    obtain ⟨⟨given, t, known, own⟩, -⟩ := given
    obtain rfl := ticketOf_call known
    exact ⟨t, known, own, given⟩
  have inside {call : Nat} (mem : call ∈ (m.gate.ticket?.map Ticket.call).toList) :
      ∃ t ∈ m.tickets, t.call = call := by
    obtain ⟨t, held, same⟩ := Option.map_eq_some_iff.1 (Option.mem_toList.1 mem)
    exact ⟨t, by simp [tickets, held], same⟩
  refine List.nodup_append'.2 ⟨outcomes, List.nodup_append'.2 ⟨List.nodup_range.filter _, ?_, ?_⟩,
    List.disjoint_append_right.2 ⟨?_, ?_⟩⟩
  · cases m.gate.ticket? <;> simp
  · intro call mem mem'
    obtain ⟨t, known, own, given⟩ := gave mem
    obtain ⟨u, ticket, same⟩ := inside mem'
    obtain rfl := ticketOf_call known
    cases h.orderly.eq_of_call known ticket same
    rcases h.orderly.unanswered t ticket with waits | ⟨detached, -⟩
    · cases (isPending_iff.1 waits).symm.trans given
    · exact detached own
  · intro call mem mem'
    obtain ⟨t, known, own, given⟩ := gave mem'
    obtain ⟨⟨call, r⟩, entry, rfl⟩ := List.mem_map.1 mem
    obtain ⟨⟨outcome, status, committed⟩, -⟩ :=
      h.done_of_outcome unbroken (List.mem_filter.1 entry).1
    obtain rfl := ticketOf_call known
    exact h.mute t known own given _ committed rfl
  · intro call mem mem'
    obtain ⟨u, ticket, same⟩ := inside mem'
    obtain ⟨⟨call, r⟩, entry, rfl⟩ := List.mem_map.1 mem
    exact (h.done_of_outcome unbroken (List.mem_filter.1 entry).1).2 u ticket same

/-- When nothing can go on, every handler run that began is accounted for. -/
theorem Reachable.count_runs (quiet : m.isQuiet) : (m.journal.filterMap Note.run?).length =
    m.appended.countP Result.ofHandler +
      ((List.range m.calls.length).countP m.gaveUpInside + if m.isBlocked then 1 else 0) := by
  have same := (List.perm_ext_iff_of_nodup h.lawful.runs_nodup (h.accounts_nodup unbroken)).2
    fun call => h.run_iff unbroken quiet
  have blocked : (m.gate.ticket?.map Ticket.call).toList.length =
      if m.isBlocked then 1 else 0 := by
    rw [h.isBlocked_iff quiet]
    cases m.gate.ticket? <;> rfl
  rw [same.length_eq, List.length_append, List.length_append, blocked, List.length_map,
    ← List.countP_eq_length_filter, ← List.countP_eq_length_filter, ← map_snd_outcomes,
    List.countP_map]
  rfl

/-- The dispatches that are done and the results in the history belong one to one, and each caller
is told its own. -/
structure Delivers (m : Machine) : Prop where
  appended : m.outcomes.map Prod.snd = m.appended
  once : (m.outcomes.map Prod.fst).Nodup
  /-- A dispatch has its result in the history if it came as far as the dispatcher, is not under way
  any more and was not given up in the caller's own time. -/
  done : ∀ call, call ∈ m.outcomes.map Prod.fst ↔ ∃ t,
    ticketOf m.journal call = some t ∧ m.Reached t ∧ t ∉ m.tickets ∧ ¬ m.GaveUp t
  matched : ∀ call r, (call, r) ∈ m.outcomes →
    ∃ t args, ticketOf m.journal call = some t ∧ t.work = .dispatch r.command args
  handled : ∀ call context observed, .ran call context observed ∈ m.journal →
    ∃ t, ticketOf m.journal call = some t ∧ t.work = .dispatch context.command context.args
  waits : ∀ t, ticketOf m.journal t.call = some t →
    (m.isPending t.call ↔ t ∈ m.tickets ∧ m.calls[t.call]? ≠ some .abandoned)
  told : ∀ call r, (call, r) ∈ m.outcomes →
    m.calls[call]? = some (.answered (.result r)) ∨ m.calls[call]? = some .abandoned
  own : ∀ (call : Nat) a, m.calls[call]? = some (.answered a) →
    (∃ r, a = .result r ∧ (call, r) ∈ m.outcomes) ∨
      ∃ t state, ticketOf m.journal call = some t ∧ t.work = .arrange state

theorem Reachable.delivers : m.Delivers where
  appended := m.map_snd_outcomes
  once := h.outcomes_nodup unbroken
  done _ := h.mem_outcomes_iff unbroken
  matched call r mem := by
    obtain ⟨⟨outcome, status, committed⟩, -⟩ := h.done_of_outcome unbroken mem
    obtain ⟨command, _, _, did, rfl, -⟩ := h.lawful.did committed
    obtain ⟨t, args, known, work⟩ := did.ticket
    exact ⟨t, args, known, by rw [work, Decision.command_result]⟩
  handled _ _ _ mem := h.lawful.ran_ticket mem
  waits _ known := h.pending_iff unbroken known
  told _ _ mem := h.told_of_outcome unbroken mem
  own _ _ told := h.outcome_of_told unbroken told

end unbroken

end Machine

end Lifecycle
