import Lifecycle.Proofs.Heard

/-! Whatever callers do at the same time, and in whatever order turns are taken, a dispatcher does
as if the uses of its gate came one after another, in the order in which they left it. -/

namespace Lifecycle

variable {d : Dispatcher} {tickets : Nat → Option Ticket} {s : Status} {j : List Note}

theorem Sections.mem_note {s : Sections} {n : Note} {x : Section}
    (mem : x ∈ (s.note n).finished ++ (s.note n).open?.toList) :
    x ∈ s.finished ++ s.open?.toList ∨
      (∃ result status, n = .committed x.call x.outcome result status) ∨ x.outcome = none := by
  cases n with
  | committed call outcome result status =>
    simp only [Sections.note, Option.toList_some, List.mem_append, List.mem_singleton] at mem
    rcases mem with mem | rfl
    · exact .inl (List.mem_append_left _ mem)
    · exact .inr (.inl ⟨result, status, rfl⟩)
  | arranged call status =>
    simp only [Sections.note, Option.toList_some, List.mem_append, List.mem_singleton] at mem
    rcases mem with mem | rfl
    · exact .inl (List.mem_append_left _ mem)
    · exact .inr (.inr rfl)
  | left => exact .inl (by simpa [Sections.note] using mem)
  | _ => exact .inl mem

theorem committed_of_sections {x : Section} {outcome : Outcome}
    (mem : x ∈ (sections j).finished ++ (sections j).open?.toList)
    (ended : x.outcome = some outcome) :
    ∃ result status, .committed x.call (some outcome) result status ∈ j := by
  induction j using List.reverseRecOn with
  | nil => cases mem
  | append_singleton j n ih =>
    rw [sections_snoc] at mem
    rcases Sections.mem_note mem with before | ⟨result, status, rfl⟩ | none
    · obtain ⟨result, status, mem⟩ := ih before
      exact ⟨result, status, List.mem_append_left _ mem⟩
    · exact ⟨result, status, by simp [ended]⟩
    · rw [none] at ended
      cases ended

namespace Dispatcher

theorem serve_previous {x : Section} {y : Served} {r : Result} (h : d.serve tickets s x = some y)
    (result : y.result = some r) : r.previous = s.state := by
  obtain ⟨t, -, rest⟩ := Option.bind_eq_some_iff.1 h
  split at rest
  · cases rest
    cases result
  · cases rest
  · obtain ⟨decision, -, same⟩ := Option.bind_eq_some_iff.1 rest
    cases same
    cases result
    exact decision.previous_result ..

theorem replay_previous {xs : List Section} {ys before after : List Served} {y : Served}
    {r : Result} (h : d.replay tickets s xs = some ys) (split : ys = before ++ y :: after)
    (result : y.result = some r) :
    r.previous = (((before.map Served.status).getLast?).getD s).state := by
  induction xs generalizing s ys before with
  | nil =>
    cases h
    simp at split
  | cons x xs ih =>
    obtain ⟨z, served, h⟩ := Option.bind_eq_some_iff.1 h
    obtain ⟨rest, replayed, same⟩ := Option.bind_eq_some_iff.1 h
    cases same
    cases before with
    | nil =>
      cases split
      exact serve_previous served result
    | cons b before =>
      obtain ⟨rfl, later⟩ := List.cons.inj split
      rw [ih replayed later, List.map_cons, List.getLast?_cons, Option.getD_some]

end Dispatcher

namespace Machine

variable {m : Machine} {capacity : Nat}

def AtRest (m : Machine) : Prop := ∀ t r e, m.gate.holder ≠ some ⟨t, .published r e⟩

theorem AtRest.undecided (h : m.AtRest) (inside : m.gate.holder ≠ none) :
    m.gate.phase.undecided := by
  cases held : m.gate.holder with
  | none => exact absurd held inside
  | some holding =>
    obtain ⟨t, _ | _ | ⟨r, e⟩⟩ := holding
    · rw [Gate.phase, held]
      rfl
    · rw [Gate.phase, held]
      rfl
    · exact absurd held (h t r e)

theorem AtRest.phase (h : m.AtRest) : (m.gate.phase.undecided ∨ m.gate.phase.ticket? = none) ∧
    m.gate.phase.unrecorded = [] ∧ m.gate.phase.unannounced = [] := by
  cases held : m.gate.holder with
  | none =>
    rw [Gate.phase, held]
    exact ⟨.inr rfl, rfl, rfl⟩
  | some holding =>
    have undecided := h.undecided (by simp [held])
    refine ⟨.inl undecided, ?_⟩
    cases phase : m.gate.phase with
    | published => simp [phase, Phase.undecided] at undecided
    | appended => simp [phase, Phase.undecided] at undecided
    | _ => exact ⟨rfl, rfl⟩

theorem Reachable.atRest_of_quiet (h : Reachable d capacity m) (quiet : m.isQuiet) : m.AtRest := by
  intro t r e held
  obtain ⟨⟨run, running, -⟩, -⟩ :=
    h.attended.blocked held (by simp [isQuiet_iff_turns.1 quiet])
  cases running

/-- The sections that are over, served one after another with no concurrency from a fresh status,
tell what the machine published, recorded, handed over and told its callers. -/
structure Linearizes (d : Dispatcher) (m : Machine) (served : List Served) : Prop where
  /-- Of the run the replay gets no more than the order of the sections and how handlers ended. -/
  replayed : d.replay (ticketOf m.journal) {} (sections m.journal).finished = some served
  outcomes : ∀ x ∈ (sections m.journal).finished, ∀ outcome, x.outcome = some outcome →
    Ran d m.journal x.call outcome
  statuses : served.map Served.status = m.journal.filterMap Note.status?
  replies : served.map (fun x => (x.call, x.answer)) = m.journal.filterMap Note.reply?
  appended : served.filterMap Served.result = m.appended
  emitted : served.filterMap Served.event = m.emitted
  recorded : d.Recorded m.journal m.dispatcher.ledger.history m.dispatcher.telemetry.sink
  chained : ∀ before x after r, served = before ++ x :: after → x.result = some r →
    r.previous = (((before.map Served.status).getLast?).getD {}).state
  status : m.status = ((served.map Served.status).getLast?).getD {}
  heard : ∀ x ∈ served, m.calls[x.call]? = some (.answered x.answer) ∨
    m.calls[x.call]? = some .abandoned
  answers : ∀ (call : Nat) a, m.calls[call]? = some (.answered a) →
    ∃ x ∈ served, x.call = call ∧ x.answer = a

/-- A dispatcher that is fresh and whose history and sink do not break down is linearizable, however
many callers there are: in every configuration of every run, except while something published is
still to be recorded. When nothing can go on all is recorded. -/
theorem linearizable (fresh : d.status = {}) (unbroken : d.Unbroken) (h : Reachable d capacity m) :
    (m.isQuiet → m.AtRest) ∧ (m.AtRest → ∃ served, Linearizes d m served) := by
  refine ⟨h.atRest_of_quiet, fun atRest => ?_⟩
  have lawful := h.lawful
  obtain ⟨served, retells⟩ := lawful.retold unbroken
  obtain ⟨rests, unrecorded, unannounced⟩ := atRest.phase
  have replayed := retells.replayed
  rw [retells.closed rests, Option.toList_none, List.append_nil, fresh] at replayed
  refine ⟨served, replayed, fun x mem outcome ended => ?_, retells.statuses, retells.replies,
    ?_, ?_, h.accounted.recorded, fun before x after r => Dispatcher.replay_previous replayed, ?_,
    fun x mem => ?_, fun call a told => ?_⟩
  · obtain ⟨result, status, noted⟩ := committed_of_sections (List.mem_append_left _ mem) ended
    exact lawful.ran noted
  · rw [retells.appended, unrecorded, List.append_nil, Machine.appended]
  · rw [retells.emitted, unannounced, List.append_nil, Machine.emitted]
  · have now : m.status = statusAfter d.status m.journal := lawful.status_eq
    rw [now, statusAfter, retells.statuses, fresh]
  · have reply : (x.call, x.answer) ∈ m.journal.filterMap Note.reply? :=
      retells.replies ▸ List.mem_map_of_mem mem
    obtain ⟨n, noted, due⟩ := List.mem_filterMap.1 reply
    refine (h.heard unbroken n noted _ _ due).resolve_right ?_
    rintro ⟨holding, held, same⟩
    have undecided := atRest.undecided (by simp [held])
    have inside : m.gate.phase.ticket? = some holding.ticket := by
      simp [Gate.phase_ticket?, Gate.ticket?, held]
    exact lawful.undecided_silent inside undecided n noted
      (same ▸ Note.contributor?_of_reply? due)
  · cases h.warranted.answers call a told with
    | reply noted due =>
      have reply := List.mem_filterMap.2 ⟨_, noted, due⟩
      rw [← retells.replies] at reply
      obtain ⟨x, mem, same⟩ := List.mem_map.1 reply
      cases same
      exact ⟨x, mem, rfl, rfl⟩
    | aborted _ loses => exact absurd loses.breaks (unbroken.never _)
    | panicked breaks => exact absurd breaks (unbroken.never _)
    | undelivered breaks => exact absurd breaks (unbroken.never _)

theorem linearizable_while_stop_blocks :
    ∃ m served, Reachable .patient 1 m ∧ m.gate.isFree = false ∧ Linearizes .patient m served ∧
      served.filterMap Served.result = [.succeeded .start .unspecified .active] := by
  have reachable := reachable_run .patient 1
    [.dispatch .detached .start .empty, .dispatch .queued .stop .empty, .release 1, .arrange .error]
  obtain ⟨rests, tells⟩ := linearizable rfl ⟨fun _ => rfl, fun _ => rfl⟩ reachable
  obtain ⟨served, linearizes⟩ := tells (rests (isQuiet_run ..))
  refine ⟨_, served, reachable, ?_, linearizes, ?_⟩
  · rfl
  · exact linearizes.appended

end Machine

end Lifecycle
