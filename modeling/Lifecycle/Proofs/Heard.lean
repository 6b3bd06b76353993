import Lifecycle.Proofs.Answers

/-! Nobody is forgotten. As long as neither the history nor the sink breaks down, whoever something
was published for is told of it, or gave up, or is still inside and will be told. -/

namespace Lifecycle.Machine

variable {d : Dispatcher} {call : Nat} {m m' : Machine} {t : Ticket}

def Settled (m : Machine) (call : Nat) (a : Answer) : Prop :=
  m.calls[call]? = some (.answered a) ∨ m.calls[call]? = some .abandoned

/-- Whoever something was published for was told of it, or gave up, or is still inside. -/
def Heard (m : Machine) : Prop :=
  ∀ n ∈ m.journal, ∀ call a, n.reply? = some (call, a) →
    m.Settled call a ∨ ∃ holding, m.gate.holder = some holding ∧ holding.ticket.call = call

theorem answer_settles {a : Answer}
    (open? : m.isPending call ∨ m.calls[call]? = some .abandoned) :
    (m.answer call a).Settled call a := by
  unfold answer
  split
  · next waits =>
    have inRange := (List.getElem?_eq_some_iff.1 (isPending_iff.1 waits)).1
    exact .inl (List.getElem?_set_self inRange)
  · next given => exact .inr (open?.resolve_left given)

theorem Closes.settles {a : Answer} (closes : Closes t command m (.done a) m')
    (open? : m.isPending t.call ∨ m.calls[t.call]? = some .abandoned) : m'.Settled t.call a := by
  cases closes with
  | told | replied => exact answer_settles open?

theorem Later.stays {adds : Note → Prop} {ends : Progress → Prop} (later : Later adds ends m m')
    {a : Answer} (settled : m.Settled call a) : m'.Settled call a :=
  settled.imp (later.settled · (by simp)) (later.settled · (by simp))

theorem Act.holder {hand hand' : Hand} (act : Act m hand hand' m')
    (bystanders : hand.isBystanders) {holding : Holding} (held : m.gate.holder = some holding) :
    m'.gate.holder = some holding := by
  cases act with
  | enters share free => cases free.symm.trans held
  | places _ places =>
    cases places with
    | refused => exact (congrArg (·.holder) (answer_frame ..).1).trans held
    | rouses | queues => exact held
  | putsOff | waits | rests | takes | lines | opens | asks | comes | releases | rouses => exact held
  | _ => cases bystanders

theorem Acts.holder {hand : Hand} (acts : Acts hand m m') (bystanders : hand.isBystanders)
    {holding : Holding} : m.gate.holder = some holding → m'.gate.holder = some holding :=
  acts.relates (R := fun m m' => m.gate.holder = some holding → m'.gate.holder = some holding)
    (fun first then' => then' ∘ first) Act.isBystanders (fun other act => act.holder other)
    bystanders

theorem holder_take {holding : Holding} (held : m.gate.holder = some holding) {turn : Turn}
    (other : ∀ share, turn ≠ .proceed share) : (m.take turn).gate.holder = some holding := by
  cases turn with
  | proceed share => exact absurd rfl (other share)
  | report => exact (congrArg (·.holder) (answer_frame (m.log _) ..).1).trans held
  | arrive | collect | place =>
    refine (acts_take m ?_).holder rfl held
    nofun

namespace Heard

theorem stays (h : m.Heard) {adds : Note → Prop} {ends : Progress → Prop}
    (later : Later adds ends m m') {news : List Note} (journal : m'.journal = m.journal ++ news)
    (holder : ∀ holding, m.gate.holder = some holding →
      ∃ holding', m'.gate.holder = some holding' ∧ holding'.ticket = holding.ticket)
    (new : ∀ n ∈ news, ∀ call, n.contributor? = some call →
      ∃ holding, m.gate.holder = some holding ∧ holding.ticket.call = call) : m'.Heard := by
  have inside {call : Nat} : (∃ holding, m.gate.holder = some holding ∧
      holding.ticket.call = call) →
      ∃ holding, m'.gate.holder = some holding ∧ holding.ticket.call = call := by
    rintro ⟨holding, held, rfl⟩
    obtain ⟨holding', held', same⟩ := holder holding held
    exact ⟨holding', held', congrArg Ticket.call same⟩
  intro n mem call a due
  rw [journal] at mem
  rcases List.mem_append.1 mem with mem | mem
  · exact (h n mem call a due).imp later.stays inside
  · exact .inr (inside (new n mem call (Note.contributor?_of_reply? due)))

theorem quietly (h : m.Heard) {ends : Progress → Prop}
    (later : Later (fun n => n.contributor? = none) ends m m')
    (holder : ∀ holding, m.gate.holder = some holding → m'.gate.holder = some holding) :
    m'.Heard := by
  obtain ⟨news, same, silent⟩ := later.journal
  refine h.stays later same (fun holding held => ⟨holding, holder holding held, rfl⟩)
    fun n mem call of => ?_
  rw [silent n mem] at of
  cases of

theorem leaves (h : m.Heard) {adds : Note → Prop} {ends : Progress → Prop}
    (later : Later adds ends m m') (inside : m.gate.ticket? = some t)
    {w : Machine} (after : LaterQuietly w m') {news : List Note}
    (journal : w.journal = m.journal ++ news)
    (own : ∀ n ∈ news, n.contributor? = none ∨ n.contributor? = some t.call)
    (settled : ∀ n ∈ m.journal ++ news, ∀ a, n.reply? = some (t.call, a) → m'.Settled t.call a) :
    m'.Heard := by
  obtain ⟨rest, same, silent⟩ := after.journal
  rw [journal] at same
  intro n mem call a due
  have of := Note.contributor?_of_reply? due
  rw [same] at mem
  rcases List.mem_append.1 mem with mem | mem
  · by_cases this : t.call = call
    · subst this
      exact .inl (settled n mem a due)
    · refine .inl ?_
      rcases List.mem_append.1 mem with mem | mem
      · refine later.stays ((h n mem call a due).resolve_right ?_)
        rintro ⟨holding, held, same⟩
        have ticket : holding.ticket = t := by simpa [Gate.ticket?, held] using inside
        exact this (ticket ▸ same)
      · rcases own n mem with none | mine
        · cases none.symm.trans of
        · exact absurd (Option.some.inj (mine.symm.trans of)) this
  · cases (silent n mem).symm.trans of

theorem proceeds (h : m.Heard) (orderly : m.Orderly) (accounted : Accounted d m.gate.phase m)
    (unbroken : d.Unbroken) (p : Proceeds m m') : m'.Heard := by
  have later := Later.proceeds p
  have inside {t : Ticket} {stage : Stage} (held : m.gate.holder = some ⟨t, stage⟩) :
      m.gate.ticket? = some t := Gate.ticket?_eq_some.2 ⟨stage, held⟩
  have waits {t : Ticket} {stage : Stage} (held : m.gate.holder = some ⟨t, stage⟩) :
      m.isPending t.call ∨ m.calls[t.call]? = some .abandoned := by
    have mem : t ∈ m.tickets := by simp [tickets, inside held]
    exact (orderly.unanswered t mem).imp_right And.right
  have remains {t : Ticket} {stage stage' : Stage} (held : m.gate.holder = some ⟨t, stage⟩)
      (held' : m'.gate.holder = some ⟨t, stage'⟩) {news : List Note}
      (journal : m'.journal = m.journal ++ news)
      (own : ∀ n ∈ news, n.contributor? = none ∨ n.contributor? = some t.call) : m'.Heard := by
    refine h.stays later journal (fun holding same => ⟨_, held', ?_⟩) fun n mem call of => ?_
    · cases held.symm.trans same
      rfl
    · rcases own n mem with none | mine
      · cases none.symm.trans of
      · exact ⟨_, held, Option.some.inj (mine.symm.trans of)⟩
  cases p with
  | nobody => exact h
  | putsOff needs held begins => exact remains held rfl rfl fun n mem => .inl (begins.silent n mem)
  | blocks needs held begins => exact remains held rfl rfl fun n mem => .inl (begins.silent n mem)
  | putsOffRecord held publishes => exact remains held rfl rfl publishes.own
  | leaves stage' permits held publishes records closes =>
    obtain rfl := records.done_of_unbroken (fun k => accounted.alike.ledger ▸ unbroken.1 k)
      fun k => accounted.alike.telemetry ▸ unbroken.2 k
    have published := publishes.lawful accounted.alike (accounted.stands held)
    obtain ⟨outcome, status, noted⟩ := published.of_published
    refine h.leaves later (inside held) ((Later.passOn rfl).trans (.closes closes)) rfl
      (List.forall_mem_append.2 ⟨publishes.own, records.own⟩) fun n mem a due => ?_
    rw [← List.append_assoc] at mem
    rcases List.mem_append.1 mem with mem | mem
    · cases published.published_once mem noted due rfl
      cases due
      refine closes.settles ?_
      rw [isPending, calls_passOn]
      exact waits held
    · cases (records.no_reply n mem).symm.trans due
  | @arranges t state held work =>
    have silent := (accounted.stands held).undecided_silent rfl rfl
    refine h.leaves later (inside held) ((Later.passOn rfl).trans (.answer ..)) rfl
      (by simp [Note.contributor?]) fun n mem a due => ?_
    rcases List.mem_append.1 mem with mem | mem
    · exact absurd (Note.contributor?_of_reply? due) (silent n mem)
    · simp only [List.mem_cons, List.not_mem_nil, or_false] at mem
      rcases mem with rfl | rfl
      · cases due
      · cases due
        refine answer_settles ?_
        rw [isPending, calls_passOn]
        exact waits held

theorem step (h : m.Heard) (orderly : m.Orderly) (accounted : Accounted d m.gate.phase m)
    (unbroken : d.Unbroken) : m.step.Heard := by
  rcases m.step_cases with ⟨-, same⟩ | ⟨turn, ready, deferred, next, -, same⟩
  · rwa [same]
  · have picked : Heard { m with ready, deferred } := h
    rw [same]
    by_cases other : ∃ share, turn = .proceed share
    · obtain ⟨share, rfl⟩ := other
      exact picked.proceeds (orderly.pick next (by simp)) (accounted.pick ready deferred) unbroken
        (Machine.proceeds _ share)
    · have other : ∀ share, turn ≠ .proceed share := fun share this => other ⟨share, this⟩
      exact picked.quietly (Later.take _ other) fun _ held => holder_take held other

theorem givesUp (h : m.Heard) {call : Nat} (g : GivesUp m call m') : m'.Heard := by
  have later := Later.givesUp g
  cases g with
  | settled => exact h
  | @handsOn t waits inside same own =>
    subst same
    have inRange := (List.getElem?_eq_some_iff.1 (isPending_iff.1 waits)).1
    obtain ⟨news, same, silent⟩ := (Later.passOn inside).journal
    refine h.leaves later inside (Later.refl _) same (fun n mem => .inl (silent n mem))
      fun n mem a due => .inr ?_
    change (m.passOn.calls.set t.call .abandoned)[t.call]? = some .abandoned
    rw [calls_passOn, List.getElem?_set_self inRange]
  | withdraws => exact h.quietly later fun _ held => held

theorem submit (h : m.Heard) (v : Move) : (m.submit v).Heard := by
  cases stays : v.givesUp with
  | true =>
    cases v with
    | abandon call => exact h.givesUp (m.givesUp_abandon call)
    | _ => cases stays
  | false =>
    exact h.quietly (Later.submit m stays) fun _ =>
      (acts_submit (timely_of_stays stays)).holder (Hand.isBystanders_move stays)

end Heard

theorem Reachable.heard {capacity : Nat} (h : Reachable d capacity m) (unbroken : d.Unbroken) :
    m.Heard := by
  induction h with
  | refl => exact fun _ mem => by cases mem
  | @tail m m' reaches change ih =>
    cases change with
    | turn => exact ih.step (Reachable.orderly reaches) (Reachable.accounted reaches) unbroken
    | move v => exact ih.submit v
    | clearHistory | clearEvents => exact ih
    | refusedFrame => exact ih.quietly (Later.log m _) fun _ held => held

end Lifecycle.Machine
