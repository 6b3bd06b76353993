import Lifecycle.Proofs.Journal
import Mathlib.Data.List.Induction

/-! The law of a journal. One note after another, the gate goes from one phase to the next: it is
taken, a handler begins, a decision is published and recorded, the gate is left. Only the notes of
whoever is inside may come, and each says exactly what the status at that moment demands. -/

namespace Lifecycle

def Dispatcher.withStatus (d : Dispatcher) (s : Status) : Dispatcher := { d with status := s }

/-- The decision on a command if its handler ends as given. There is none if a handler has to run
and no outcome is given, or the other way round. -/
def Dispatcher.decision? (d : Dispatcher) (s : Status) (command : Command)
    (outcome : Option Outcome) : Option Decision :=
  match (d.withStatus s).prepare command, outcome with
  | .error failure, none => some (.refuse failure)
  | .ok (next, _), some outcome => some (outcome.decide command s.state next)
  | _, _ => none

theorem Dispatcher.handler_of_prepare {d : Dispatcher} {command : Command} {next : State}
    {handler : Handler} (h : d.prepare command = .ok (next, handler)) :
    d.registry.handler? command = some handler := by
  unfold prepare at h
  split at h
  · cases h
  · split at h
    · cases h
    · next found =>
      cases h
      exact found

inductive Phase
  | free
  | admitted (t : Ticket)
  | running (t : Ticket) (command : Command) (previous fallback : State) (outcome : Outcome)
  | published (t : Ticket) (result : Result) (event : Event)
  | appended (t : Ticket) (event : Event)
  | done (t : Ticket)

namespace Phase

def ticket? : Phase → Option Ticket
  | free => none
  | admitted t | running t .. | published t .. | appended t .. | done t => some t

def undecided : Phase → Bool
  | admitted _ | running .. => true
  | _ => false

def handled? : Phase → Option Nat
  | running t .. => some t.call
  | _ => none

end Phase

structure Standing where
  phase : Phase
  status : Status

/-- Which note may come after the notes `j`, and where the gate stands then. The last three ways
to leave are a caller who gives up and a history or sink that breaks down. -/
inductive Follows (d : Dispatcher) (j : List Note) : Standing → Note → Standing → Prop
  | aside {a n} (h : n.isAside) : Follows d j a n a
  | enter {s t} (known : ticketOf j t.call = some t) (first : .admitted t.call ∉ j) :
    Follows d j ⟨.free, s⟩ (.admitted t.call) ⟨.admitted t, s⟩
  | run {s t command args next handler} (work : t.work = .dispatch command args)
    (allowed : (d.withStatus s).prepare command = .ok (next, handler)) :
    Follows d j ⟨.admitted t, s⟩ (.ran t.call ⟨command, s.state, args⟩ handler.observed)
      ⟨.running t command s.state next
        (handler.behaviour (j.countP (Note.isRunOf command)) ⟨command, s.state, args⟩).outcome, s⟩
  | refuse {s t command args failure} (work : t.work = .dispatch command args)
    (refused : (d.withStatus s).prepare command = .error failure) :
    Follows d j ⟨.admitted t, s⟩
      (.committed t.call none ((Decision.refuse failure).result command s.state)
        ((Decision.refuse failure).status command s))
      ⟨.published t ((Decision.refuse failure).result command s.state)
        ((Decision.refuse failure).event command s.state),
        (Decision.refuse failure).status command s⟩
  | decide {s t command previous next outcome decision}
    (decided : outcome.decide command previous next = decision) :
    Follows d j ⟨.running t command previous next outcome, s⟩
      (.committed t.call (some outcome) (decision.result command previous)
        (decision.status command s))
      ⟨.published t (decision.result command previous) (decision.event command previous),
        decision.status command s⟩
  | arrange {s t state} (work : t.work = .arrange state) :
    Follows d j ⟨.admitted t, s⟩ (.arranged t.call (s.arrange state)) ⟨.done t, s.arrange state⟩
  | append {s t result event} :
    Follows d j ⟨.published t result event, s⟩ (.appended t.call result) ⟨.appended t event, s⟩
  | announce {s t event} :
    Follows d j ⟨.appended t event, s⟩ (.emitted t.call event) ⟨.done t, s⟩
  | leave {s t} : Follows d j ⟨.done t, s⟩ (.left t.call) ⟨.free, s⟩
  | giveUp {s t command previous next outcome} (own : t.seat = .caller) :
    Follows d j ⟨.running t command previous next outcome, s⟩ (.left t.call) ⟨.free, s⟩
  | loseResult {s t result event k payload} (breaks : d.ledger.breaks k = some payload) :
    Follows d j ⟨.published t result event, s⟩ (.left t.call) ⟨.free, s⟩
  | loseEvent {s t event k payload} (breaks : d.telemetry.breaks k = some payload) :
    Follows d j ⟨.appended t event, s⟩ (.left t.call) ⟨.free, s⟩

inductive Lawful (d : Dispatcher) : List Note → Standing → Prop
  | nil : Lawful d [] ⟨.free, d.status⟩
  | snoc {j a n b} (before : Lawful d j a) (next : Follows d j a n b) : Lawful d (j ++ [n]) b

/-- How a run of a handler ended that has begun for the call: as the handler behaves at its next run
in that context. -/
def Ran (d : Dispatcher) (j : List Note) (call : Nat) (outcome : Outcome) : Prop :=
  ∃ before since context observed handler, j = before ++ .ran call context observed :: since ∧
    d.registry.handler? context.command = some handler ∧
    outcome = (handler.behaviour (before.countP (Note.isRunOf context.command)) context).outcome

namespace Lawful

variable {d : Dispatcher} {j k : List Note} {a b : Standing} {n : Note} {s : Status}

theorem of_snoc (h : Lawful d (j ++ [n]) b) : ∃ a, Lawful d j a ∧ Follows d j a n b := by
  generalize eq : j ++ [n] = k at h
  cases h with
  | nil => simp at eq
  | snoc before next =>
    obtain ⟨rfl, same⟩ := List.append_inj' eq rfl
    cases same
    exact ⟨_, before, next⟩

theorem of_append (h : Lawful d (j ++ k) b) : ∃ a, Lawful d j a := by
  induction k using List.reverseRecOn generalizing b with
  | nil => exact ⟨b, by simpa using h⟩
  | append_singleton k n ih =>
    rw [← List.append_assoc] at h
    obtain ⟨a, before, -⟩ := h.of_snoc
    exact ih before

theorem at_note (h : Lawful d (j ++ n :: k) b) :
    ∃ a c, Lawful d j a ∧ Follows d j a n c ∧ Lawful d (j ++ [n]) c := by
  rw [← List.singleton_append, ← List.append_assoc] at h
  obtain ⟨c, upTo⟩ := h.of_append
  obtain ⟨a, before, next⟩ := upTo.of_snoc
  exact ⟨a, c, before, next, upTo⟩

theorem asides (h : Lawful d j a) (all : ∀ n ∈ k, n.isAside) : Lawful d (j ++ k) a := by
  induction k using List.reverseRecOn with
  | nil => simpa using h
  | append_singleton k n ih =>
    rw [← List.append_assoc]
    refine .snoc (ih fun n mem => all n (by simp [mem])) (.aside (all n (by simp)))

theorem status_eq (h : Lawful d j a) : a.status = statusAfter d.status j := by
  induction h with
  | nil => rfl
  | snoc before next ih =>
    rw [statusAfter_snoc, ← ih]
    cases next with
    | aside silent => rw [Note.status?_of_isAside silent, Option.getD_none]
    | _ => rfl

theorem inside_eq (h : Lawful d j a) : inside j = (a.phase.ticket?.map (·.call)).toList := by
  induction h with
  | nil => rfl
  | snoc before next ih =>
    cases next with
    | aside silent => rw [inside_snoc_of_isAside _ silent, ih]
    | _ => simp [inside_snoc, ih, Phase.ticket?]

theorem inHandler_eq (h : Lawful d j a) : inHandler j = a.phase.handled?.toList := by
  induction h with
  | nil => rfl
  | snoc before next ih =>
    cases next with
    | aside silent => rw [inHandler_snoc_of_isAside _ silent, ih]
    | _ => simp [inHandler_snoc, ih, Phase.handled?]

/-- What is known while a handler runs: it is the handler of the command in the ticket, allowed in
the state in which the command was admitted, which is still the published one. -/
theorem of_running {t : Ticket} {command : Command} {previous next : State} {outcome : Outcome}
    (h : Lawful d j ⟨.running t command previous next outcome, s⟩) :
    previous = s.state ∧ ∃ args handler before since, t.work = .dispatch command args ∧
      (d.withStatus s).prepare command = .ok (next, handler) ∧
      j = before ++ .ran t.call ⟨command, previous, args⟩ handler.observed :: since ∧
      (∀ call, .left call ∉ since) ∧
      outcome = (handler.behaviour (before.countP (Note.isRunOf command))
        ⟨command, previous, args⟩).outcome := by
  generalize eq : Standing.mk (.running t command previous next outcome) s = a at h
  induction h with
  | nil => cases eq
  | @snoc j a n b before follows ih =>
    cases follows with
    | aside silent =>
      obtain ⟨same, args, handler, k, l, work, allowed, rfl, stayed, ended⟩ := ih eq
      refine ⟨same, args, handler, k, l ++ [n], work, allowed, by simp, fun call mem => ?_, ended⟩
      rcases List.mem_append.1 mem with mem | mem
      · exact stayed call mem
      · cases List.mem_singleton.1 mem; cases silent
    | run work allowed => cases eq; exact ⟨rfl, _, _, j, [], work, allowed, rfl, by simp, rfl⟩
    | _ => cases eq

/-- Whoever is inside was admitted once, and nobody left since. As long as it has published
nothing, the status is the one that it found. -/
theorem admission {t : Ticket} (h : Lawful d j a) (inside : a.phase.ticket? = some t) :
    ∃ before since, j = before ++ .admitted t.call :: since ∧ ticketOf before t.call = some t ∧
      (∀ call, .left call ∉ since) ∧
      (a.phase.undecided → a.status = statusAfter d.status before) := by
  induction h with
  | nil => cases inside
  | @snoc j a n b lawful next ih =>
    cases next with
    | aside silent =>
      obtain ⟨before, since, rfl, known, stayed, found⟩ := ih inside
      refine ⟨before, since ++ [n], by simp, known, fun call mem => ?_, found⟩
      rcases List.mem_append.1 mem with mem | mem
      · exact stayed call mem
      · cases List.mem_singleton.1 mem; cases silent
    | enter known first =>
      cases inside
      exact ⟨j, [], rfl, known, by simp, fun _ => lawful.status_eq⟩
    | leave | giveUp | loseResult | loseEvent => cases inside
    | _ =>
      obtain ⟨before, since, rfl, known, stayed, found⟩ := ih inside
      refine ⟨before, since ++ [_], by rw [List.append_assoc, List.cons_append], known,
        fun call mem => ?_, ?_⟩
      · simp [stayed call] at mem
      · first | exact fun _ => found rfl | exact nofun

theorem known {t : Ticket} (h : Lawful d j a) (inside : a.phase.ticket? = some t) :
    ticketOf j t.call = some t := by
  obtain ⟨before, since, rfl, known, -⟩ := h.admission inside
  exact ticketOf_of_append _ known

theorem not_mem_of_admitted {call : Nat} (h : Lawful d (j ++ .admitted call :: k) a) :
    .admitted call ∉ j := by
  obtain ⟨_, _, _, follows, _⟩ := h.at_note
  cases follows with
  | aside silent => cases silent
  | enter _ first => exact first

theorem admitted_once {j' k' : List Note} {call : Nat}
    (h : Lawful d (j ++ .admitted call :: k) a)
    (same : j ++ .admitted call :: k = j' ++ .admitted call :: k') : j = j' ∧ k = k' := by
  have new := h.not_mem_of_admitted
  have new' := (same ▸ h).not_mem_of_admitted
  rcases List.append_eq_append_iff.1 same with ⟨l, rfl, eq⟩ | ⟨l, rfl, eq⟩
  · cases l with
    | nil => simpa using eq
    | cons n l => cases eq; simp at new'
  · cases l with
    | nil => simpa [eq_comm] using eq
    | cons n l => cases eq; simp at new

theorem decision {call : Nat} {outcome : Option Outcome} {result : Result} {status : Status}
    {b : Standing} (h : Lawful d j a)
    (next : Follows d j a (.committed call outcome result status) b) :
    ∃ t command args decision, t.call = call ∧ a.phase.ticket? = some t ∧ a.phase.undecided ∧
      t.work = .dispatch command args ∧
      d.decision? (statusAfter d.status j) command outcome = some decision ∧
      result = decision.result command (statusAfter d.status j).state ∧
      status = decision.status command (statusAfter d.status j) ∧
      b.phase = .published t result (decision.event command (statusAfter d.status j).state) := by
  have now := h.status_eq
  cases next with
  | aside silent => cases silent
  | refuse work refused =>
    subst now
    refine ⟨_, _, _, _, rfl, rfl, rfl, work, ?_, rfl, rfl, rfl⟩
    simp [Dispatcher.decision?, refused]
  | decide decided =>
    obtain ⟨rfl, args, _, _, _, work, allowed, -⟩ := h.of_running
    subst now
    refine ⟨_, _, _, _, rfl, rfl, rfl, work, ?_, rfl, rfl, rfl⟩
    simp [Dispatcher.decision?, allowed, decided]

theorem ran {call : Nat} {outcome : Outcome} {result : Result}
    {status : Status} (h : Lawful d j a) (mem : .committed call (some outcome) result status ∈ j) :
    Ran d j call outcome := by
  obtain ⟨k, l, rfl⟩ := List.append_of_mem mem
  obtain ⟨a, c, before, next, -⟩ := h.at_note
  cases next with
  | aside silent => cases silent
  | @decide s =>
    obtain ⟨-, args, handler, k', l', -, allowed, rfl, -, ended⟩ := before.of_running
    have registered := Dispatcher.handler_of_prepare (d := d.withStatus s) allowed
    exact ⟨k', l' ++ .committed _ _ _ _ :: l, _, _, handler, List.append_assoc .., registered,
      ended⟩

theorem admitted_of_contributor {call : Nat} (h : Lawful d j a) (mem : n ∈ j)
    (own : n.contributor? = some call) : .admitted call ∈ j := by
  induction h with
  | nil => cases mem
  | snoc before next ih =>
    rcases List.mem_append.1 mem with mem | mem
    · exact List.mem_append_left _ (ih mem)
    · cases List.mem_singleton.1 mem
      refine List.mem_append_left _ ?_
      cases next with
      | aside silent =>
        rw [Note.contributor?_of_isAside silent] at own
        cases own
      | refuse | decide | arrange | append | announce =>
        obtain ⟨k, l, rfl, -⟩ := before.admission rfl
        cases own
        simp
      | _ => cases own

theorem undecided_silent {t : Ticket} (h : Lawful d j a) (inside : a.phase.ticket? = some t)
    (undecided : a.phase.undecided) : ∀ n ∈ j, n.contributor? ≠ some t.call := by
  induction h with
  | nil => cases inside
  | snoc before next ih =>
    refine List.forall_mem_append.2 ⟨?_, List.forall_mem_singleton.2 ?_⟩
    · cases next with
      | aside => exact ih inside undecided
      | enter known first =>
        cases inside
        exact fun n mem own => first (before.admitted_of_contributor mem own)
      | run => exact ih inside rfl
      | leave | giveUp | loseResult | loseEvent => cases inside
      | _ => cases undecided
    · cases next with
      | aside silent =>
        rw [Note.contributor?_of_isAside silent]
        nofun
      | enter | run => nofun
      | leave | giveUp | loseResult | loseEvent => cases inside
      | _ => cases undecided

theorem silent_before_reply {call : Nat} {answer : Answer} (h : Lawful d j a)
    (next : Follows d j a n b) (due : n.reply? = some (call, answer)) :
    ∀ k ∈ j, k.contributor? ≠ some call := by
  cases next with
  | aside silent =>
    rw [Note.reply?_of_contributor? (Note.contributor?_of_isAside silent)] at due
    cases due
  | refuse | decide | arrange =>
    cases due
    exact h.undecided_silent rfl rfl
  | _ => cases due

theorem of_published {t : Ticket} {r : Result} {e : Event} {s : Status}
    (h : Lawful d j ⟨.published t r e, s⟩) :
    ∃ outcome status, .committed t.call outcome r status ∈ j := by
  generalize here : (⟨.published t r e, s⟩ : Standing) = a at h
  induction h with
  | nil => cases here
  | snoc before next ih =>
    cases next with
    | aside =>
      obtain ⟨outcome, status, mem⟩ := ih here
      exact ⟨outcome, status, List.mem_append_left _ mem⟩
    | refuse | decide =>
      cases here
      exact ⟨_, _, List.mem_append_right _ (List.mem_singleton_self _)⟩
    | _ => cases here

theorem published_once {call : Nat} {answer answer' : Answer} {n' : Note} (h : Lawful d j a)
    (mem : n ∈ j) (mem' : n' ∈ j) (due : n.reply? = some (call, answer))
    (due' : n'.reply? = some (call, answer')) : n = n' := by
  induction h with
  | nil => cases mem
  | snoc before next ih =>
    have own := Note.contributor?_of_reply? due
    have own' := Note.contributor?_of_reply? due'
    simp only [List.mem_append, List.mem_singleton] at mem mem'
    rcases mem with mem | rfl <;> rcases mem' with mem' | rfl
    · exact ih mem mem'
    · exact absurd own (before.silent_before_reply next due' n mem)
    · exact absurd own' (before.silent_before_reply next due n' mem')
    · rfl

theorem found {t : Ticket} {before since : List Note} {k l : List Note}
    (h : Lawful d (before ++ .admitted t.call :: since) b)
    (same : before ++ .admitted t.call :: since = k ++ l) (now : Lawful d k a)
    (inside : a.phase.ticket? = some t) (undecided : a.phase.undecided) :
    a.status = statusAfter d.status before := by
  obtain ⟨before', since', rfl, -, -, status⟩ := now.admission inside
  rw [List.append_assoc, List.cons_append] at same
  rw [status undecided, (h.admitted_once same).1]

end Lawful

end Lifecycle
