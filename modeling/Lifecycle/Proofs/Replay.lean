import Lifecycle.Proofs.Lawful

/-! Uses of the gate one after another, with no concurrency. Of a run the replay gets the tickets,
the order in which they left the gate and the outcomes of the handlers; results, statuses and
events it works out by itself. A lawful journal without breakdowns tells the same. -/

namespace Lifecycle

def Dispatcher.Unbroken (d : Dispatcher) : Prop :=
  (∀ n, d.ledger.breaks n = none) ∧ ∀ n, d.telemetry.breaks n = none

structure Served where
  call : Nat
  result : Option Result := none
  event : Option Event := none
  status : Status

def Served.answer (x : Served) : Answer :=
  match x.result with
  | some r => .result r
  | none => .arranged x.status.state

namespace Dispatcher

def serve (d : Dispatcher) (tickets : Nat → Option Ticket) (s : Status) (x : Section) :
    Option Served := do
  let t ← tickets x.call
  match t.work, x.outcome with
  | .arrange state, none => return { call := x.call, status := s.arrange state }
  | .arrange _, some _ => none
  | .dispatch command _, outcome =>
    let decision ← d.decision? s command outcome
    return {
      call := x.call
      result := some (decision.result command s.state)
      event := some (decision.event command s.state)
      status := decision.status command s }

def replay (d : Dispatcher) (tickets : Nat → Option Ticket) (s : Status) :
    List Section → Option (List Served)
  | [] => some []
  | x :: xs => do
    let served ← d.serve tickets s x
    let rest ← d.replay tickets served.status xs
    return served :: rest

variable {d : Dispatcher} {tickets tickets' : Nat → Option Ticket} {s : Status}

theorem serve_dispatch {t : Ticket} {command : Command} {args : Args} {outcome : Option Outcome}
    {decision : Decision} (known : tickets t.call = some t) (work : t.work = .dispatch command args)
    (decided : d.decision? s command outcome = some decision) :
    d.serve tickets s ⟨t.call, outcome⟩ = some ⟨t.call, some (decision.result command s.state),
      some (decision.event command s.state), decision.status command s⟩ := by
  simp [serve, known, work, decided]

theorem serve_arrange {t : Ticket} {state : State} (known : tickets t.call = some t)
    (work : t.work = .arrange state) :
    d.serve tickets s ⟨t.call, none⟩ = some ⟨t.call, none, none, s.arrange state⟩ := by
  simp [serve, known, work]

theorem serve_mono (more : ∀ call t, tickets call = some t → tickets' call = some t)
    {x : Section} {y : Served} (h : d.serve tickets s x = some y) :
    d.serve tickets' s x = some y := by
  obtain ⟨t, found, rest⟩ := Option.bind_eq_some_iff.1 h
  exact Option.bind_eq_some_iff.2 ⟨t, more _ _ found, rest⟩

theorem replay_mono (more : ∀ call t, tickets call = some t → tickets' call = some t)
    {xs : List Section} {ys : List Served} (h : d.replay tickets s xs = some ys) :
    d.replay tickets' s xs = some ys := by
  induction xs generalizing s ys with
  | nil => exact h
  | cons x xs ih =>
    obtain ⟨y, served, h⟩ := Option.bind_eq_some_iff.1 h
    obtain ⟨rest, replayed, same⟩ := Option.bind_eq_some_iff.1 h
    exact Option.bind_eq_some_iff.2
      ⟨y, serve_mono more served, Option.bind_eq_some_iff.2 ⟨rest, ih replayed, same⟩⟩

theorem replay_snoc {xs : List Section} {ys : List Served} {x : Section} {y : Served}
    (h : d.replay tickets s xs = some ys)
    (last : d.serve tickets (((ys.map Served.status).getLast?).getD s) x = some y) :
    d.replay tickets s (xs ++ [x]) = some (ys ++ [y]) := by
  induction xs generalizing s ys with
  | nil =>
    cases h
    rw [List.map_nil, List.getLast?_nil, Option.getD_none] at last
    simp [replay, last]
  | cons z xs ih =>
    obtain ⟨w, served, h⟩ := Option.bind_eq_some_iff.1 h
    obtain ⟨rest, replayed, same⟩ := Option.bind_eq_some_iff.1 h
    cases same
    rw [List.map_cons, List.getLast?_cons, Option.getD_some] at last
    refine Option.bind_eq_some_iff.2 ⟨w, served, Option.bind_eq_some_iff.2 ⟨rest ++ [y], ?_, rfl⟩⟩
    exact ih replayed last

end Dispatcher

namespace Phase

def unrecorded : Phase → List Result
  | published _ result _ => [result]
  | _ => []

def unannounced : Phase → List Event
  | published _ _ event | appended _ event => [event]
  | _ => []

end Phase

/-- A replay of the sections agrees with the journal, up to what is still to be recorded. -/
structure Retells (d : Dispatcher) (j : List Note) (p : Phase) (served : List Served) : Prop where
  replayed : d.replay (ticketOf j) d.status ((sections j).finished ++ (sections j).open?.toList) =
    some served
  closed : p.undecided ∨ p.ticket? = none → (sections j).open? = none
  statuses : served.map Served.status = j.filterMap Note.status?
  replies : served.map (fun x => (x.call, x.answer)) = j.filterMap Note.reply?
  appended : served.filterMap Served.result = j.filterMap Note.appended? ++ p.unrecorded
  emitted : served.filterMap Served.event = j.filterMap Note.emitted? ++ p.unannounced

namespace Retells

variable {d : Dispatcher} {j : List Note} {n : Note} {p p' : Phase} {served : List Served}

theorem pass (h : Retells d j p served)
    (same : ((sections j).note n).finished ++ ((sections j).note n).open?.toList =
      (sections j).finished ++ (sections j).open?.toList)
    (closed : p'.undecided ∨ p'.ticket? = none → ((sections j).note n).open? = none)
    (status : n.status? = none) (reply : n.reply? = none)
    (appended : p.unrecorded = n.appended?.toList ++ p'.unrecorded)
    (emitted : p.unannounced = n.emitted?.toList ++ p'.unannounced) :
    Retells d (j ++ [n]) p' served where
  replayed := by
    rw [sections_snoc, same]
    exact Dispatcher.replay_mono (fun _ _ => ticketOf_of_append _) h.replayed
  closed := by rwa [sections_snoc]
  statuses := by simp [h.statuses, status]
  replies := by simp [h.replies, reply]
  appended := by rw [h.appended, appended, filterMap_snoc, List.append_assoc]
  emitted := by rw [h.emitted, emitted, filterMap_snoc, List.append_assoc]

theorem serve {x : Section} {y : Served} (h : Retells d j p served)
    (idle : (sections j).open? = none)
    (opens : ((sections j).note n) = ⟨(sections j).finished, some x⟩)
    (recorded : p.unrecorded = [] ∧ p.unannounced = [])
    (once : d.serve (ticketOf j) (statusAfter d.status j) x = some y)
    (status : n.status? = some y.status)
    (reply : n.reply? = some (y.call, y.answer))
    (silent : n.isSilent) (busy : ¬ p'.undecided ∧ p'.ticket? ≠ none)
    (due : p'.unrecorded = y.result.toList ∧ p'.unannounced = y.event.toList) :
    Retells d (j ++ [n]) p' (served ++ [y]) where
  replayed := by
    have before := h.replayed
    rw [idle, Option.toList_none, List.append_nil] at before
    rw [sections_snoc, opens]
    have before := Dispatcher.replay_mono (fun _ _ => ticketOf_of_append [n]) before
    refine Dispatcher.replay_snoc before ?_
    rw [h.statuses]
    exact Dispatcher.serve_mono (fun _ _ => ticketOf_of_append _) once
  closed := by simp [busy]
  statuses := by simp [h.statuses, status]
  replies := by simp [h.replies, reply]
  appended := by
    rw [List.filterMap_append, h.appended, filterMap_snoc, recorded.1,
      Note.appended?_of_isSilent silent, due.1]
    cases result : y.result <;> simp [result]
  emitted := by
    rw [List.filterMap_append, h.emitted, filterMap_snoc, recorded.2,
      Note.emitted?_of_isSilent silent, due.2]
    cases event : y.event <;> simp [event]

end Retells

namespace Lawful

variable {d : Dispatcher} {j : List Note} {a : Standing}

/-- Without breakdowns every lawful journal is retold by the replay of its sections. -/
theorem retold (unbroken : d.Unbroken) (h : Lawful d j a) :
    ∃ served, Retells d j a.phase served := by
  induction h with
  | nil => exact ⟨[], rfl, fun _ => rfl, rfl, rfl, rfl, rfl⟩
  | @snoc j a n b lawful next ih =>
    obtain ⟨served, h⟩ := ih
    have follows := next
    cases next with
    | aside silent =>
      cases n with
      | opened | queued | taken | logged =>
        exact ⟨served, h.pass rfl h.closed rfl rfl rfl rfl⟩
      | _ => cases silent
    | enter => exact ⟨served, h.pass rfl (fun _ => h.closed (.inr rfl)) rfl rfl rfl rfl⟩
    | run => exact ⟨served, h.pass rfl (fun _ => h.closed (.inl rfl)) rfl rfl rfl rfl⟩
    | refuse | decide =>
      obtain ⟨t, command, args, decision, call, inside, fresh, work, decided, result, status,
        due⟩ := lawful.decision follows
      have once := Dispatcher.serve_dispatch (lawful.known inside) work decided
      refine ⟨_, h.serve (h.closed (.inl fresh)) ?_ ⟨rfl, rfl⟩ once ?_ ?_ rfl ?_ ?_⟩
      · rw [call]; rfl
      · rw [status]; rfl
      · rw [call, result]; rfl
      · rw [due]; simp [Phase.undecided, Phase.ticket?]
      · rw [due, result]; exact ⟨rfl, rfl⟩
    | arrange work =>
      have now := lawful.status_eq
      subst now
      have once := Dispatcher.serve_arrange (d := d) (s := statusAfter d.status j)
        (lawful.known rfl) work
      exact ⟨_, h.serve (h.closed (.inl rfl)) rfl ⟨rfl, rfl⟩ once rfl rfl rfl
        (by simp [Phase.undecided, Phase.ticket?]) ⟨rfl, rfl⟩⟩
    | append | announce =>
      exact ⟨served, h.pass rfl (by simp [Phase.undecided, Phase.ticket?]) rfl rfl rfl rfl⟩
    | leave | giveUp =>
      exact ⟨served, h.pass (by simp [Sections.note]) (fun _ => rfl) rfl rfl rfl rfl⟩
    | @loseResult _ _ _ _ k _ breaks => simp [unbroken.1 k] at breaks
    | @loseEvent _ _ _ k _ breaks => simp [unbroken.2 k] at breaks

end Lawful

end Lifecycle
