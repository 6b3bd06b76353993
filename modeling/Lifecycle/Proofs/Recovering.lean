import Lifecycle.Proofs.Outcomes
import Lifecycle.Proofs.Prescription

/-! A component that recovers. As long as the state is not forced, nothing but health checks is
served, and only one whose handler fails leads out of the recovering state. -/

namespace Lifecycle

def Note.Keeps (s : State) (n : Note) : Prop :=
  ∀ status, n.status? = some status → status.state = s

/-- The journal went on from `j` to `j'`, and the state was `s` all the time since. -/
def StaysIn (s : State) (j j' : List Note) : Prop :=
  ∃ news, j' = j ++ news ∧ ∀ n ∈ news, n.Keeps s

/-- A dispatch found the component recovering: its handler does not run, and it is refused if it is
decided at all. -/
structure TurnedAway (j : List Note) (call : Nat) (command : Command) : Prop where
  idle : ∀ context observed, .ran call context observed ∉ j
  refused : ∀ outcome result status, .committed call outcome result status ∈ j →
    ∃ text, text = s!"illegal transition: {command.name} from {State.recovering.name}" ∧
      outcome = none ∧
      result = ⟨command, .recovering, .recovering, false, some text, some .illegalTransition⟩ ∧
      status = ⟨.recovering, some text⟩

def Dispatcher.tiring : Dispatcher :=
  .ofRegistry ⟨fun _ => some { behaviour := fun n _ =>
    ⟨0, if n = 0 then .transition .default else .failed "tired"⟩ }⟩

section stays

variable {s : State} {j j' : List Note}

theorem StaysIn.state {status : Status} (h : StaysIn s j j')
    (now : (statusAfter status j).state = s) : (statusAfter status j').state = s := by
  obtain ⟨news, rfl, keeps⟩ := h
  induction news using List.reverseRecOn with
  | nil => rwa [List.append_nil]
  | append_singleton news n ih =>
    rw [← List.append_assoc, statusAfter_snoc]
    cases published : n.status? with
    | none => exact ih fun k mem => keeps k (List.mem_append_left _ mem)
    | some status => exact keeps n (by simp) status published

end stays

namespace Lawful

variable {d : Dispatcher} {j k : List Note} {a b : Standing} {call : Nat} {t : Ticket}
  {command : Command} {args : Args}

theorem ran_or_replied_of_left (h : Lawful d j a) (mem : .left call ∈ j) :
    (∃ context observed, .ran call context observed ∈ j) ∨
      ∃ n ∈ j, ∃ answer, n.reply? = some (call, answer) := by
  obtain ⟨k, l, rfl⟩ := List.append_of_mem mem
  obtain ⟨a, c, before, next, -⟩ := h.at_note
  have replied {t : Ticket} (inside : a.phase.ticket? = some t) (decided : ¬ a.phase.undecided) :
      ∃ n ∈ k ++ .left t.call :: l, ∃ answer, n.reply? = some (t.call, answer) := by
    obtain ⟨n, mem, published⟩ := before.replied inside decided
    exact ⟨n, List.mem_append_left _ mem, published⟩
  cases next with
  | aside silent => cases silent
  | leave | loseResult | loseEvent => exact .inr (replied rfl nofun)
  | giveUp =>
    obtain ⟨-, args, handler, k', l', -, -, rfl, -⟩ := before.of_running
    exact .inl ⟨_, _, List.mem_append_left _ (List.mem_append_right _ List.mem_cons_self)⟩

theorem committed_of_replied {n : Note} {answer : Answer} (h : Lawful d j a)
    (known : ticketOf j t.call = some t) (work : t.work = .dispatch command args) (mem : n ∈ j)
    (due : n.reply? = some (t.call, answer)) :
    ∃ outcome result status, .committed t.call outcome result status ∈ j := by
  cases n with
  | committed =>
    cases due
    exact ⟨_, _, _, mem⟩
  | arranged call status =>
    cases due
    obtain ⟨u, state, known', work'⟩ := h.arranged_ticket mem
    cases known.symm.trans known'
    cases work.symm.trans work'
  | _ => cases due

theorem finds_kept {s : State} {l : List Note} (now : Lawful d j a) (stays : StaysIn s j k)
    (state : (statusAfter d.status j).state = s) (known : ticketOf (k ++ l) t.call = some t)
    (work : t.work = .dispatch command args) (admitted : .admitted t.call ∈ k)
    (inside : .left t.call ∉ j)
    (undecided : ∀ outcome result status, .committed t.call outcome result status ∉ j) :
    ∃ before since, k = before ++ .admitted t.call :: since ∧
      (statusAfter d.status before).state = s := by
  obtain ⟨news, rfl, keeps⟩ := stays
  rcases List.mem_append.1 admitted with earlier | later
  · obtain ⟨u, inside, same⟩ := (now.inside_or_left earlier).resolve_right inside
    have known' := ticketOf_of_append l (ticketOf_of_append news (now.known inside))
    rw [same] at known'
    cases known.symm.trans known'
    have waits : a.phase.undecided := by
      refine Decidable.byContradiction fun decided => ?_
      obtain ⟨n, mem, answer, due⟩ := now.replied inside decided
      obtain ⟨outcome, result, status, committed⟩ :=
        now.committed_of_replied (now.known inside) work mem due
      exact undecided outcome result status committed
    obtain ⟨before, since, rfl, -, -, found⟩ := now.admission inside
    refine ⟨before, since ++ news, by simp, ?_⟩
    rw [← found waits, now.status_eq, state]
  · obtain ⟨period, rest, rfl⟩ := List.append_of_mem later
    refine ⟨j ++ period, rest, by simp, StaysIn.state ⟨period, rfl, fun n mem => ?_⟩ state⟩
    exact keeps n (List.mem_append_left _ mem)

theorem turnedAway {before since : List Note}
    (h : Lawful d (before ++ .admitted t.call :: since) a)
    (state : (statusAfter d.status before).state = .recovering)
    (known : ticketOf (before ++ .admitted t.call :: since) t.call = some t)
    (work : t.work = .dispatch command args) (other : command ≠ .healthCheck) :
    TurnedAway (before ++ .admitted t.call :: since) t.call command where
  idle context observed mem := by
    obtain ⟨before', since', next, same, admits⟩ := h.admits_of_ran mem
    obtain ⟨u, known', work'⟩ := h.ran_ticket mem
    cases known.symm.trans known'
    cases work.symm.trans work'
    have leads := admits.legal
    rw [← (h.admitted_once same).1, state] at leads
    exact other leads.checks_of_recovering
  refused outcome result status mem := by
    obtain ⟨k, l, same⟩ := List.append_of_mem mem
    obtain ⟨a, c, upTo, next, -⟩ := (same ▸ h).at_note
    obtain ⟨u, command', args', effect, own, inside, undecided, work', prescribed, rfl, rfl⟩ :=
      upTo.prescribed next
    have known' := ticketOf_of_append (.committed t.call outcome effect.result effect.status :: l)
      (upTo.known inside)
    rw [← same, own] at known'
    cases known.symm.trans known'
    cases work.symm.trans work'
    have found : (statusAfter d.status k).state = .recovering := by
      rw [← upTo.status_eq, h.found same upTo inside undecided, state]
    obtain ⟨rfl, rfl⟩ := prescribed.of_illegal fun next leads => other <|
      Policy.Leads.checks_of_recovering (found ▸ leads)
    rw [Effect.refused, found]
    exact ⟨_, rfl, rfl, rfl, rfl⟩

theorem leaves {status : Status} {n : Note} (h : Lawful d (j ++ n :: k) a)
    (state : (statusAfter d.status j).state = .recovering) (published : n.status? = some status)
    (other : status.state ≠ .recovering) :
    (∃ call, n = .arranged call status) ∨ status.state = .error ∧
      ∃ call outcome result t args, n = .committed call (some outcome) result status ∧
        ticketOf (j ++ n :: k) call = some t ∧ t.work = .dispatch .healthCheck args ∧
        outcome.Fails ∧ Ran d (j ++ n :: k) call outcome := by
  obtain ⟨a, c, upTo, next, -⟩ := h.at_note
  cases n with
  | arranged call => cases published; exact .inl ⟨call, rfl⟩
  | committed call outcome result =>
    cases published
    obtain ⟨t, command, args, effect, rfl, inside, -, work, prescribed, rfl, rfl⟩ :=
      upTo.prescribed next
    have checks : command = .healthCheck := by
      refine Decidable.byContradiction fun serves => other ?_
      obtain ⟨-, rfl⟩ := prescribed.of_illegal fun next leads => serves <|
        Policy.Leads.checks_of_recovering (state ▸ leads)
      exact state
    subst checks
    rcases prescribed.stays_or_fails with same | ⟨error, -, -, outcome, rfl, fails⟩
    · exact absurd (same.trans state) other
    · have ran := h.ran (List.mem_append_right _ List.mem_cons_self)
      exact .inr ⟨error, _, outcome, _, t, args, rfl, ticketOf_of_append _ (upTo.known inside),
        work, fails, ran⟩
  | _ => cases published

end Lawful

namespace Machine

/-- From a moment on at which the component of `m` recovers, up to `m'`. All of it is about the time
until another state is published. -/
structure Recovers (d : Dispatcher) (m m' : Machine) : Prop where
  stays : StaysIn .recovering m.journal m'.journal → m'.state = .recovering
  /-- Other commands are refused, those that were admitted before and are still undecided too. -/
  refuses : ∀ upTo rest t command args, m'.journal = upTo ++ rest →
    StaysIn .recovering m.journal upTo → ticketOf m'.journal t.call = some t →
    t.work = .dispatch command args → command ≠ .healthCheck → .admitted t.call ∈ upTo →
    .left t.call ∉ m.journal →
    (∀ outcome result status, .committed t.call outcome result status ∉ m.journal) →
    TurnedAway m'.journal t.call command ∧ (m'.isQuiet ∨ .left t.call ∈ m'.journal →
      ∃ outcome result status, .committed t.call outcome result status ∈ m'.journal)
  checks : ∀ upTo rest call outcome result status t args,
    m'.journal = upTo ++ .committed call outcome result status :: rest →
    StaysIn .recovering m.journal upTo → ticketOf m'.journal call = some t →
    t.work = .dispatch .healthCheck args → result.success ∨
      result.errorKind = some .contractViolation ∨ result.errorKind = some .unhandledCommand →
    status.state = .recovering
  /-- The first other state is forced, or that of a health check whose handler failed. -/
  leaves : ∀ upTo n rest status, m'.journal = upTo ++ n :: rest →
    StaysIn .recovering m.journal upTo → n.status? = some status → status.state ≠ .recovering →
    (∃ call, n = .arranged call status) ∨ status.state = .error ∧
      ∃ call outcome result t args, n = .committed call (some outcome) result status ∧
        ticketOf m'.journal call = some t ∧ t.work = .dispatch .healthCheck args ∧
        outcome.Fails ∧ Ran d m'.journal call outcome

variable {d : Dispatcher} {capacity : Nat} {m m' : Machine} {t : Ticket} {command : Command}
  {args : Args}

theorem Reachable.decided (h : Reachable d capacity m) (known : ticketOf m.journal t.call = some t)
    (work : t.work = .dispatch command args) (admitted : .admitted t.call ∈ m.journal)
    (idle : ∀ context observed, .ran t.call context observed ∉ m.journal)
    (settled : m.isQuiet ∨ .left t.call ∈ m.journal) :
    ∃ outcome result status, .committed t.call outcome result status ∈ m.journal := by
  have lawful := h.lawful
  have gone (left : .left t.call ∈ m.journal) :
      ∃ outcome result status, .committed t.call outcome result status ∈ m.journal := by
    rcases lawful.ran_or_replied_of_left left with ⟨context, observed, ran⟩ | ⟨n, mem, answer, due⟩
    · exact absurd ran (idle context observed)
    · exact lawful.committed_of_replied known work mem due
  rcases lawful.inside_or_left admitted with ⟨u, inside, same⟩ | left
  · rcases settled with quiet | left
    · -- Whoever is inside a quiet machine is blocked in its handler.
      obtain ⟨context, observed, ran⟩ :=
        mem_run.1 (h.ran_of_held quiet (m.gate.phase_ticket? ▸ inside))
      exact absurd (same ▸ ran) (idle context observed)
    · exact gone left
  · exact gone left

/-- Out of the recovering state there are two ways only: the state is forced, or the handler of a
health check fails. -/
theorem recovering_left_by_force_or_failing_check (h : Reachable d capacity m)
    (recovering : m.state = .recovering) (later : Reaches m m') : Recovers d m m' := by
  have lawful := (show Reachable d capacity m' from h.trans later).lawful
  have now : (statusAfter d.status m.journal).state = .recovering := by
    rw [← h.lawful.status_eq]
    exact recovering
  constructor
  case stays =>
    intro stays
    have state := stays.state now
    rwa [← lawful.status_eq] at state
  case refuses =>
    intro upTo rest t command args same stays known work other admitted inside undecided
    have after : Reachable d capacity m' := h.trans later
    have begun : .admitted t.call ∈ m'.journal := same ▸ List.mem_append_left _ admitted
    have found : ∃ before since, m'.journal = before ++ .admitted t.call :: since ∧
        (statusAfter d.status before).state = .recovering := by
      obtain ⟨before, since, rfl, state⟩ :=
        h.lawful.finds_kept stays now (same ▸ known) work admitted inside undecided
      exact ⟨before, since ++ rest, by rw [same, List.append_assoc, List.cons_append], state⟩
    have turned : TurnedAway m'.journal t.call command := by
      obtain ⟨before, since, split, state⟩ := found
      rw [split] at lawful known ⊢
      exact lawful.turnedAway state known work other
    exact ⟨turned, after.decided known work begun turned.idle⟩
  case checks =>
    intro upTo rest call outcome result status t args same stays known work ended
    rw [same] at lawful known
    obtain ⟨a, c, upToLawful, next, -⟩ := lawful.at_note
    obtain ⟨u, command, args', effect, rfl, inside, -, work', prescribed, rfl, rfl⟩ :=
      upToLawful.prescribed next
    cases known.symm.trans (ticketOf_of_append _ (upToLawful.known inside))
    cases work.symm.trans work'
    rcases prescribed.stays_or_fails with same | ⟨-, failed, kind, -⟩
    · exact same.trans (stays.state now)
    · simp [failed, kind] at ended
  case leaves =>
    intro upTo n rest status same stays published other
    rw [same] at lawful ⊢
    exact lawful.leaves (stays.state now) published other

/-- A stop is refused, one health check succeeds and the next one fails. -/
theorem recovering_left_by_second_check :
    ∃ m m', Reachable .tiring 1 m ∧ m.state = .recovering ∧ Reaches m m' ∧
      Recovers .tiring m m' ∧ m'.status = ⟨.error, some "tired"⟩ ∧ m'.journal.countP
        (Note.isRunOf .healthCheck) = 2 ∧ m'.journal.countP (Note.isRunOf .stop) = 0 := by
  have reachable := reachable_run .tiring 1 [.arrange .recovering]
  obtain ⟨later, -⟩ := reaches_run (isQuiet_run .tiring 1 [.arrange .recovering])
    [.dispatch .queued .stop .empty, .dispatch .detached .healthCheck .empty,
      .dispatch .attached .healthCheck .empty]
  have recovers := recovering_left_by_force_or_failing_check reachable rfl later
  refine ⟨_, _, reachable, ?_, later, recovers, ?_, ?_, ?_⟩ <;> rfl

end Machine

end Lifecycle
