import Lifecycle.Proofs.Outcomes

/-! The way of a result back to whoever asked for it in a session. A name stands for one call until
that is reported or given up, so what is asked for under a name is the outcome of the request that
was made under it; the reply to a frame bears the frame's own identifier. -/

namespace Lifecycle

namespace Members

variable {α : Type} {k key : String} {m : Members α}

theorem get?_filter (other : k ≠ key) : get? key (m.filter fun x => !(x.1 == k)) = m.get? key := by
  induction m with
  | nil => rfl
  | cons x m ih =>
    obtain ⟨k', w⟩ := x
    by_cases same : k' = k
    · subst same
      rw [List.filter_cons_of_neg (by simp), ih, get?, if_neg (Ne.symm other)]
    · rw [List.filter_cons_of_pos (by simpa using same), get?, get?, ih]

end Members

namespace Machine

variable {m : Machine} {call : Nat}

theorem Later.settle (m : Machine) : Later (fun _ => True) Progress.isAnswered m m.settle := by
  refine steps_keep (fun n later => later.trans ?_) m.work (.refl m)
  exact (Later.step n).mono (fun _ _ => trivial) fun _ ended => ended

theorem abandoned_of_move {v : Move} (gave : (m.move v).calls[call]? = some .abandoned) :
    m.calls[call]? = some .abandoned ∨ v = .abandon call := by
  have gave := (Later.settle _).abandoned gave
  cases stays : v.givesUp with
  | false => exact .inl ((Later.submit m stays).abandoned gave)
  | true =>
    cases v with
    | abandon k =>
      by_cases same : k = call
      · exact .inr (same ▸ rfl)
      · refine .inl ?_
        rw [submit] at gave
        by_cases waits : m.isPending k
        · rwa [calls_abandon waits, List.getElem?_set_ne same] at gave
        · rwa [abandon_of_not_pending waits] at gave
    | _ => cases stays

theorem Later.calls_le {adds : Note → Prop} {ends : Progress → Prop} {m' : Machine}
    (h : Later adds ends m m') : m.calls.length ≤ m'.calls.length := by
  refine Nat.le_of_not_lt fun less => ?_
  have now := h.each m'.calls.length _ (List.getElem?_eq_getElem less)
  simp at now

theorem later_move (m : Machine) {v : Move} {t : Ticket}
    (opens : v.ticket? m.calls.length = some t) :
    Later (fun _ => True) Progress.isAnswered (m.openCall t) (m.move v) := by
  have quietly {m' : Machine} (later : LaterQuietly (m.openCall t) m') :
      Later (fun _ => True) Progress.isAnswered (m.openCall t) m' :=
    later.mono (fun _ _ => trivial) fun _ ended => ended
  refine Later.trans ?_ (.settle _)
  cases v with
  | dispatch path command args =>
    cases opens
    cases path with
    | attached | detached => exact .of_same rfl rfl
    | queued => exact quietly ((acts_send ..).later rfl)
  | arrange state =>
    cases opens
    exact .of_same rfl rfl
  | release | abandon => cases opens

theorem Reachable.ticketOf_move {d : Dispatcher} {capacity : Nat} (h : Reachable d capacity m)
    {v : Move} {t : Ticket} (opens : v.ticket? m.calls.length = some t) :
    t.call = m.calls.length ∧ ticketOf (m.move v).journal t.call = some t := by
  have new : t.call = m.calls.length := by
    cases v <;> cases opens <;> rfl
  obtain ⟨news, same, -⟩ := (later_move m opens).journal
  have unheard : ticketOf m.journal t.call = none := by
    cases known : ticketOf m.journal t.call with
    | none => rfl
    | some u =>
      have less := h.orderly.numbered u (mem_of_ticketOf known)
      rw [ticketOf_call known, new] at less
      exact absurd less (Nat.lt_irrefl _)
  refine ⟨new, ?_⟩
  rw [same, openCall, note, ticketOf_append, ticketOf_append, unheard]
  simp [ticketOf, Note.ticket?]

end Machine

namespace Session

open Machine

def Step.name? : Step → Option String
  | .dispatch _ _ _ id | .frame _ _ id | .setState _ id | .join id | .abandon id => some id
  | _ => none

structure Distinct (s : Session) : Prop where
  numbered : ∀ x ∈ s.opened, x.2.call < s.machine.calls.length
  apart : ∀ x ∈ s.opened, ∀ y ∈ s.opened, x.2.call = y.2.call → x.1 = y.1

variable {s : Session} {id : String} {o : OpenCall}

theorem find?_forget {name : String} (other : name ≠ id) : (s.forget name).find? id = s.find? id :=
  Members.get?_filter other

theorem opened_settleCall (s : Session) (name : String) (o : OpenCall) (otherwise : Report) :
    (s.settleCall name o otherwise).1 = s ∨
      (s.settleCall name o otherwise).1 = s.forget name := by
  unfold settleCall
  split
  · exact .inr rfl
  · exact .inl rfl

theorem find?_settleCall {name : String} (other : name ≠ id) (o : OpenCall) (otherwise : Report) :
    (s.settleCall name o otherwise).1.find? id = s.find? id := by
  rcases s.opened_settleCall name o otherwise with same | same
  · rw [same]
  · rw [same, find?_forget other]

theorem find?_opening {name : String} (other : name ≠ id) (frame : Option (Codec × String))
    (v : Move) : (s.opening name frame v).1.find? id = s.find? id := by
  rw [opening, find?_settleCall other]
  have tail : find? { s.forget name with
      machine := s.machine.move v
      opened := (name, { call := s.machine.calls.length, frame }) :: (s.forget name).opened } id =
        (s.forget name).find? id := if_neg (Ne.symm other)
  exact tail.trans (find?_forget other)

/-- What a step does to the names, and who can give up with it: it opens a call under a name, or it
forgets a name, or it leaves all names as they are. -/
inductive Takes (s : Session) (step : Step) (s' : Session) : Prop
  | opens {name frame v t} (named : step.name? = some name)
    (opens : Move.ticket? s.machine.calls.length v = some t)
    (same : s' = (s.opening name frame v).1)
  | forgets {name} (named : step.name? = some name) (opened : s'.opened = (s.forget name).opened)
    (gave : ∀ call : Nat, s'.machine.calls[call]? = some .abandoned →
      s.machine.calls[call]? = some .abandoned ∨ ∃ o, s.find? name = some o ∧ o.call = call)
  | keeps (opened : s'.opened = s.opened)
    (gave : ∀ call : Nat, s'.machine.calls[call]? = some .abandoned →
      s.machine.calls[call]? = some .abandoned)

theorem takes (s : Session) (step : Step) : Takes s step (s.take step).1 := by
  cases step with
  | dispatch entry command args name =>
    unfold take
    dsimp only
    split
    · exact .keeps rfl fun _ gave => gave
    · exact .opens rfl rfl rfl
  | frame codec bytes name =>
    unfold take
    dsimp only
    split
    · exact .opens rfl rfl rfl
    · exact .forgets rfl rfl fun _ gave => .inl gave
    · exact .forgets rfl rfl fun _ gave => .inl gave
  | setState state name => exact .opens rfl rfl rfl
  | join name =>
    unfold take
    dsimp only
    split
    · exact .keeps rfl fun _ gave => gave
    · next o _ =>
      rcases s.opened_settleCall name o (.pending name) with same | same
      · rw [same]
        exact .keeps rfl fun _ gave => gave
      · rw [same]
        exact .forgets rfl rfl fun _ gave => .inl gave
  | abandon name =>
    unfold take
    dsimp only
    split
    · exact .keeps rfl fun _ gave => gave
    · next o found =>
      split
      · exact .forgets rfl rfl fun _ gave => .inl gave
      · refine .forgets rfl rfl fun call gave => (abandoned_of_move gave).imp_right fun own => ?_
        cases own
        exact ⟨o, found, rfl⟩
  | release n => exact .keeps rfl fun call gave => (abandoned_of_move gave).resolve_right nofun
  | clearHistory | events =>
    unfold take
    dsimp only
    split <;> exact .keeps rfl fun _ gave => gave
  | _ => exact .keeps rfl fun _ gave => gave

theorem find?_take {step : Step} (other : step.name? ≠ some id) :
    (s.take step).1.find? id = s.find? id := by
  cases s.takes step with
  | opens named opens same =>
    rw [same]
    exact find?_opening (fun this => other (named.trans (congrArg some this))) ..
  | @forgets name named opened =>
    have forgotten := find?_forget (s := s) fun this => other (named.trans (congrArg some this))
    rwa [find?, ← opened] at forgotten
  | keeps opened => rw [find?, opened, find?]

namespace Distinct

theorem fewer (h : s.Distinct) {s' : Session} (fewer : s'.opened ⊆ s.opened)
    (more : s.machine.calls.length ≤ s'.machine.calls.length) : s'.Distinct where
  numbered x mem := Nat.lt_of_lt_of_le (h.numbered x (fewer mem)) more
  apart x mem y mem' := h.apart x (fewer mem) y (fewer mem')

theorem opening (h : s.Distinct) (name : String) (frame : Option (Codec × String)) {v : Move}
    {t : Ticket} (opens : v.ticket? s.machine.calls.length = some t) :
    (s.opening name frame v).1.Distinct := by
  have older : Distinct (s.forget name) :=
    h.fewer (List.filter_subset_self _) (Nat.le_refl s.machine.calls.length)
  have more : s.machine.calls.length < (s.machine.move v).calls.length := by
    have later := (later_move s.machine opens).calls_le
    rwa [openCall, note, List.length_append] at later
  have distinct : Distinct { s.forget name with
      machine := s.machine.move v
      opened := (name, ⟨s.machine.calls.length, frame⟩) :: (s.forget name).opened } := by
    refine ⟨List.forall_mem_cons.2 ⟨more, fun x mem => ?_⟩, fun x mem y mem' same => ?_⟩
    · exact Nat.lt_trans (older.numbered x mem) more
    · have new {x : String × OpenCall} (mem : x ∈ (s.forget name).opened) :
          x.2.call ≠ s.machine.calls.length := Nat.ne_of_lt (older.numbered x mem)
      rcases List.mem_cons.1 mem with rfl | mem <;> rcases List.mem_cons.1 mem' with rfl | mem'
      · rfl
      · exact absurd same.symm (new mem')
      · exact absurd same (new mem)
      · exact older.apart x mem y mem' same
  rw [Session.opening]
  rcases opened_settleCall _ name ⟨s.machine.calls.length, frame⟩ (.pending name) with same | same
  · exact same ▸ distinct
  · exact same ▸ distinct.fewer (List.filter_subset_self _) (Nat.le_refl _)

theorem take (h : s.Distinct) (quiet : s.machine.isQuiet) (step : Step) :
    (s.take step).1.Distinct := by
  have more := (reaches_take quiet step).1.later.calls_le
  cases s.takes step with
  | opens named opens same => exact same ▸ h.opening _ _ opens
  | forgets named opened => exact h.fewer (opened ▸ List.filter_subset_self _) more
  | keeps opened => exact h.fewer (opened ▸ List.Subset.refl _) more

end Distinct

theorem kept_after (h : s.Distinct) (quiet : s.machine.isQuiet) (found : s.find? id = some o)
    (still : s.machine.calls[o.call]? ≠ some .abandoned) {steps : List Step}
    (others : ∀ step ∈ steps, step.name? ≠ some id) : (s.after steps).find? id = some o ∧
      (s.after steps).machine.calls[o.call]? ≠ some .abandoned := by
  induction steps generalizing s with
  | nil => exact ⟨found, still⟩
  | cons step steps ih =>
    have other := others step List.mem_cons_self
    refine ih (h.take quiet step) (reaches_take quiet step).2 ((find?_take other).trans found)
      (fun gave => ?_) fun step mem => others step (List.mem_cons_of_mem _ mem)
    have gave : (s.take step).1.machine.calls[o.call]? = some .abandoned := gave
    -- What is given up under another name is another call, since every call has one name.
    cases s.takes step with
    | @opens name frame v t named opens same =>
      rw [same, machine_opening] at gave
      refine (abandoned_of_move gave).elim still fun own => ?_
      rw [own] at opens
      cases opens
    | @forgets name named opened gives =>
      refine (gives _ gave).elim still fun ⟨o', found', same⟩ => other ?_
      have one := h.apart _ (Members.mem_of_get? found') _ (Members.mem_of_get? found) same
      exact named.trans (congrArg some one)
    | keeps opened gives => exact still (gives _ gave)

structure Asked where
  id : String
  frame : Option (Codec × String) := none
  path : Path
  command : Command
  args : Args

def Step.request? : Step → Option Asked
  | .dispatch entry command args id => match documentFor entry command args with
    | .ok document => some { id, path := entry.path, command, args := document }
    | .error _ => none
  | .frame codec bytes id => match Router.accept codec bytes with
    | .ok (name, r) => some {
        id, frame := some (codec, name), path := .detached, command := r.command, args := r.args }
    | .error _ => none
  | _ => none

/-- What is reported of a call says that it is pending, and so it is, or hands over its result: as
it is, or in a reply under the identifier of its own frame. -/
def Reports (s : Session) (id : String) (o : OpenCall) (report : Report) : Prop :=
  report = .pending id ∧ s.machine.isPending o.call ∨
    ∃ r, (o.call, r) ∈ s.machine.outcomes ∧ (o.frame = none → report = .result r) ∧
      ∀ codec name frame, o.frame = some (codec, name) → codec.encode ⟨name, r⟩ = .ok frame →
        report = .reply frame

theorem take_request {step : Step} {a : Asked} (asks : step.request? = some a) :
    s.take step = s.opening a.id a.frame (.dispatch a.path a.command a.args) := by
  cases step with
  | dispatch entry command args id =>
    unfold Step.request? at asks
    unfold take
    dsimp only at asks ⊢
    split at asks
    · next ok =>
      cases asks
      rw [ok]
    · cases asks
  | frame codec bytes id =>
    unfold Step.request? at asks
    unfold take
    dsimp only at asks ⊢
    split at asks
    · next ok =>
      cases asks
      rw [ok]
    · cases asks
  | _ => cases asks

theorem present_result (o : OpenCall) (r : Result) : (o.frame = none → present o (.result r) =
    .result r) ∧ ∀ codec name frame, o.frame = some (codec, name) →
      codec.encode ⟨name, r⟩ = .ok frame → present o (.result r) = .reply frame := by
  constructor
  · intro none
    simp [present, none]
  · intro codec name frame some encodes
    simp [present, some, Router.reply, encodes, Except.mapError]

variable {d : Dispatcher} {capacity : Nat}

theorem reports_settleCall (h : Reachable d capacity s.machine) (unbroken : d.Unbroken)
    {t : Ticket} (known : ticketOf s.machine.journal o.call = some t)
    (dispatches : ∃ command args, t.work = .dispatch command args)
    (still : s.machine.calls[o.call]? ≠ some .abandoned) (id : String) :
    Reports s id o (s.settleCall id o (.pending id)).2 := by
  have less := h.orderly.numbered t (mem_of_ticketOf known)
  rw [ticketOf_call known] at less
  unfold settleCall
  cases now : s.machine.calls[o.call]? with
  | none =>
    rw [List.getElem?_eq_none_iff] at now
    omega
  | some p =>
    cases p with
    | pending => exact .inl ⟨rfl, isPending_iff.2 now⟩
    | abandoned => exact absurd now still
    | answered a =>
      rcases h.outcome_of_told unbroken now with ⟨r, rfl, mem⟩ | ⟨u, state, known', work⟩
      · exact .inr ⟨r, mem, present_result o r⟩
      · cases known.symm.trans known'
        obtain ⟨command, args, work'⟩ := dispatches
        cases work.symm.trans work'

theorem settleCall_of_pending (pending : (s.settleCall id o (.pending id)).2 = .pending id) :
    (s.settleCall id o (.pending id)).1 = s := by
  unfold settleCall at pending ⊢
  split at pending
  · next a _ =>
    unfold present at pending
    cases a <;> dsimp only at pending <;> repeat' split at pending
    all_goals cases pending
  · rfl

theorem take_join (found : s.find? id = some o) :
    s.take (.join id) = s.settleCall id o (.pending id) := by
  rw [take, found]

def withOpened (s : Session) (id : String) (frame : Option (Codec × String)) (v : Move) : Session :=
  { s.forget id with
    machine := s.machine.move v
    opened := (id, ⟨s.machine.calls.length, frame⟩) :: (s.forget id).opened }

theorem opening_eq (s : Session) (id : String) (frame : Option (Codec × String)) (v : Move) :
    s.opening id frame v = (s.withOpened id frame v).settleCall id ⟨s.machine.calls.length, frame⟩
      (.pending id) := rfl

theorem find?_withOpened (s : Session) (id : String) (frame : Option (Codec × String)) (v : Move) :
    (s.withOpened id frame v).find? id = some ⟨s.machine.calls.length, frame⟩ := if_pos rfl

/-- As long as whoever asked for something does not give up, what is reported under its name is what
has become of its own call. -/
theorem own_reports (h : Reachable d capacity s.machine) (quiet : s.machine.isQuiet)
    (distinct : s.Distinct) {step : Step} {a : Asked} (asks : step.request? = some a)
    {P : Machine → Report → Prop}
    (own : ∀ w : Session, Reachable d capacity w.machine →
      ticketOf w.machine.journal s.machine.calls.length =
        some ⟨s.machine.calls.length, a.path.seat, .dispatch a.command a.args⟩ →
      w.machine.calls[s.machine.calls.length]? ≠ some .abandoned →
      P w.machine (w.settleCall a.id ⟨s.machine.calls.length, a.frame⟩ (.pending a.id)).2) :
    ticketOf (s.take step).1.machine.journal s.machine.calls.length =
      some ⟨s.machine.calls.length, a.path.seat, .dispatch a.command a.args⟩ ∧
    P (s.take step).1.machine (s.take step).2 ∧
    ((s.take step).2 = .pending a.id → ∀ since : List Step,
      (∀ step ∈ since, step.name? ≠ some a.id) →
      P ((s.take step).1.after since).machine
        (((s.take step).1.after since).take (.join a.id)).2) := by
  have reaches := (reaches_take quiet step).1
  have quiet' := (reaches_take quiet step).2
  have distinct' := distinct.take quiet step
  rw [take_request asks, opening_eq] at reaches quiet' distinct' ⊢
  generalize opened : s.withOpened a.id a.frame (.dispatch a.path a.command a.args) = w at *
  have moved : w.machine = s.machine.move (.dispatch a.path a.command a.args) := opened ▸ rfl
  have known : ticketOf w.machine.journal s.machine.calls.length =
      some ⟨s.machine.calls.length, a.path.seat, .dispatch a.command a.args⟩ :=
    moved ▸ (h.ticketOf_move (v := .dispatch a.path a.command a.args) rfl).2
  have still : w.machine.calls[s.machine.calls.length]? ≠ some .abandoned := by
    intro gave
    rw [moved] at gave
    rcases abandoned_of_move gave with before | own
    · simp at before
    · cases own
  rw [machine_settleCall] at reaches quiet' ⊢
  have reachable : Reachable d capacity w.machine := h.trans reaches
  refine ⟨known, own w reachable known still, fun pending since others => ?_⟩
  have found : w.find? a.id = some ⟨s.machine.calls.length, a.frame⟩ :=
    opened ▸ s.find?_withOpened ..
  rw [settleCall_of_pending pending] at distinct' ⊢
  obtain ⟨found', still'⟩ := kept_after distinct' quiet' found still others
  obtain ⟨later, -⟩ := reaches_after quiet' since
  obtain ⟨news, same, -⟩ := later.later.journal
  rw [take_join found']
  exact own _ (reachable.trans later) (same ▸ ticketOf_of_append news known) still'

/-- Whoever asks for something in a session is told, at once or when it asks again, the outcome of
its own request, as long as it does not give up. -/
theorem reports_own (h : Reachable d capacity s.machine) (quiet : s.machine.isQuiet)
    (distinct : s.Distinct) (unbroken : d.Unbroken) {step : Step} {a : Asked}
    (asks : step.request? = some a) :
    ticketOf (s.take step).1.machine.journal s.machine.calls.length =
      some ⟨s.machine.calls.length, a.path.seat, .dispatch a.command a.args⟩ ∧
    Reports (s.take step).1 a.id ⟨s.machine.calls.length, a.frame⟩ (s.take step).2 ∧
    ((s.take step).2 = .pending a.id → ∀ since : List Step,
      (∀ step ∈ since, step.name? ≠ some a.id) →
      Reports ((s.take step).1.after since) a.id ⟨s.machine.calls.length, a.frame⟩
        (((s.take step).1.after since).take (.join a.id)).2) :=
  own_reports h quiet distinct asks (P := fun m report =>
    Reports { s with machine := m } a.id ⟨s.machine.calls.length, a.frame⟩ report)
    fun _ reachable known still =>
      reports_settleCall reachable unbroken known ⟨_, _, rfl⟩ still a.id

theorem distinct_after (h : s.Distinct) (quiet : s.machine.isQuiet) (steps : List Step) :
    (s.after steps).Distinct := by
  induction steps generalizing s with
  | nil => exact h
  | cons step steps ih => exact ih (h.take quiet step) (reaches_take quiet step).2

def Uses (d : Dispatcher) (s : Session) : Prop :=
  ∃ x s₀ steps, x.dispatcher = .ok d ∧ start x = .ok s₀ ∧ s = s₀.after steps

theorem Uses.reachable (uses : Uses d s) :
    (∃ capacity, Reachable d capacity s.machine) ∧ s.machine.isQuiet ∧ s.Distinct := by
  obtain ⟨x, s₀, steps, built, started, rfl⟩ := uses
  obtain ⟨d', built', -, reachable, quiet⟩ := reachable_after started steps
  cases built.symm.trans built'
  obtain ⟨_, -, -, same⟩ := machine_of_start started
  have none : s₀.opened = [] := by
    obtain ⟨_, -, started⟩ := exists_of_bind started
    cases started
    rfl
  have distinct : s₀.Distinct := ⟨by simp [none], by simp [none]⟩
  refine ⟨⟨_, reachable⟩, quiet, distinct_after distinct ?_ steps⟩
  rw [same]
  exact isQuiet_start ..

/-- If nothing breaks down there is one outcome for each request, and each goes to its own caller:
so it is in every configuration, and every handler run is accounted for when nothing can go on.
Whoever asks in a session, by whatever way, is told the outcome of its own request. -/
theorem one_outcome_each (unbroken : d.Unbroken) :
    (∀ capacity m, Reachable d capacity m → m.Delivers ∧ (m.isQuiet →
      (m.journal.filterMap Note.run?).length = m.appended.countP Result.ofHandler +
        ((List.range m.calls.length).countP m.gaveUpInside + if m.isBlocked then 1 else 0))) ∧
    ∀ s, Uses d s → ∀ (step : Step) (a : Asked), step.request? = some a →
      ticketOf (s.take step).1.machine.journal s.machine.calls.length =
        some ⟨s.machine.calls.length, a.path.seat, .dispatch a.command a.args⟩ ∧
      Reports (s.take step).1 a.id ⟨s.machine.calls.length, a.frame⟩ (s.take step).2 ∧
      ((s.take step).2 = .pending a.id → ∀ since : List Step,
        (∀ step ∈ since, step.name? ≠ some a.id) →
        Reports ((s.take step).1.after since) a.id ⟨s.machine.calls.length, a.frame⟩
          (((s.take step).1.after since).take (.join a.id)).2) := by
  refine ⟨fun capacity m h => ⟨h.delivers unbroken, h.count_runs unbroken⟩,
    fun s uses step a asks => ?_⟩
  obtain ⟨⟨capacity, reachable⟩, quiet, distinct⟩ := uses.reachable
  exact reports_own reachable quiet distinct unbroken asks

/-- Of three handlers that began one has its result in the history, one was given up and one is
blocked. -/
theorem one_outcome_each_of_given_up_start :
    ∃ m, Reachable .patient 1 m ∧ m.Delivers ∧ (m.journal.filterMap Note.run?).length = 3 ∧
      m.outcomes = [(1, .succeeded .start .unspecified .active),
        (2, .failed .start .active .active (.illegalTransition .start .active))] ∧
      m.gaveUpInside 0 ∧ m.isBlocked := by
  have reachable := reachable_run .patient 1
    [.dispatch .attached .start .empty, .abandon 0, .dispatch .detached .start .empty,
      .dispatch .queued .start .empty, .release 1, .dispatch .detached .stop .empty]
  obtain ⟨machines, -⟩ := one_outcome_each (d := .patient) ⟨fun _ => rfl, fun _ => rfl⟩
  obtain ⟨delivers, accounts⟩ := machines 1 _ reachable
  refine ⟨_, reachable, delivers, accounts (isQuiet_run ..), ?_, ?_, ?_⟩ <;> rfl

end Session

end Lifecycle
