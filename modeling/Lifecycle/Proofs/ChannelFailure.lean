import Lifecycle.Proofs.Admission
import Lifecycle.Proofs.Breakdown
import Lifecycle.Proofs.ChannelOrder
import Lifecycle.Proofs.Turns

/-! What becomes of a channel whose worker breaks down. As long as it does not, every request gets
its reply; when it does, everybody who counts on it is told, its last dispatch stays published, and
those who come to the gate by other ways come there as before. -/

namespace Lifecycle

def Dispatcher.brittle : Dispatcher :=
  let d := Dispatcher.patient
  { d with ledger := { d.ledger with breaks := fun _ => some (some "full") } }

namespace Lawful

variable {d : Dispatcher} {j : List Note} {a : Standing} {call : Nat}

theorem published_now {t : Ticket} {r : Result} {e : Event} {s : Status}
    (h : Lawful d j ⟨.published t r e, s⟩) : ∃ outcome, .committed t.call outcome r s ∈ j := by
  generalize here : (⟨.published t r e, s⟩ : Standing) = a at h
  induction h with
  | nil => cases here
  | snoc before next ih =>
    cases next with
    | aside =>
      obtain ⟨outcome, mem⟩ := ih here
      exact ⟨outcome, List.mem_append_left _ mem⟩
    | refuse | decide =>
      cases here
      exact ⟨_, List.mem_append_right _ (List.mem_singleton_self _)⟩
    | _ => cases here

theorem admitted_of_left (h : Lawful d j a) (mem : .left call ∈ j) : .admitted call ∈ j := by
  obtain ⟨k, l, rfl⟩ := List.append_of_mem mem
  obtain ⟨b, c, before, next, -⟩ := h.at_note
  have came {t : Ticket} (inside : b.phase.ticket? = some t) :
      .admitted t.call ∈ k ++ .left t.call :: l := by
    obtain ⟨k', l', rfl, -⟩ := before.admission inside
    simp
  cases next with
  | aside silent => cases silent
  | leave | giveUp | loseResult | loseEvent => exact came rfl

end Lawful

theorem statusAfter_append (s : Status) (j k : List Note) :
    statusAfter s (j ++ k) = statusAfter (statusAfter s j) k := by
  unfold statusAfter
  rw [List.filterMap_append, List.getLast?_append]
  cases (k.filterMap Note.status?).getLast? <;> rfl

namespace Machine

variable {m m' : Machine} {t : Ticket}

section waits

variable {c : Nat} (waits : m.calls[c]? = some .pending)
include waits

theorem calls_answer (call : Nat) (a : Answer) :
    (m.answer call a).calls[c]? = some (if c = call then .answered a else .pending) := by
  unfold answer
  split
  · by_cases same : call = c
    · subst same
      rw [if_pos rfl]
      exact List.getElem?_set_self (List.getElem?_eq_some_iff.1 waits).1
    · rw [if_neg fun this => same this.symm]
      exact (List.getElem?_set_ne same).trans waits
  · next settled =>
    rw [if_neg ?_, waits]
    rintro rfl
    exact settled (isPending_iff.2 waits)

theorem calls_answers (a : Answer) (ps : List Post) :
    (ps.foldl (fun m p => m.answer p.call a) m).calls[c]? =
      some (if c ∈ ps.map Post.call then .answered a else .pending) := by
  induction ps generalizing m with
  | nil => simpa using waits
  | cons p ps ih =>
    have first := calls_answer waits p.call a
    rw [List.foldl_cons, List.map_cons]
    by_cases same : c = p.call
    · obtain ⟨cs, rest, -, told⟩ := answers_eq a ps (m.answer p.call a)
      rw [if_pos same] at first
      rw [if_pos (same ▸ List.mem_cons_self), rest]
      exact told.settled first (by simp)
    · rw [if_neg same] at first
      rw [ih first]
      simp [same]

theorem calls_bury (call : Nat) : (m.bury call).calls[c]? = some (
    if c ∈ call :: m.channel.queue.map Post.call then .answered (.undelivered .replyDropped)
    else if c ∈ m.channel.waiting.map Post.call then .answered (.undelivered .closed)
    else .pending) := by
  have first := calls_answer waits call (.undelivered .replyDropped)
  obtain ⟨cs, own, -⟩ := m.answer_eq call (.undelivered .replyDropped)
  obtain ⟨cs', same', -, told'⟩ :=
    answers_eq (.undelivered .replyDropped) m.channel.queue { m with calls := cs }
  obtain ⟨cs'', same'', -, told''⟩ :=
    answers_eq (.undelivered .closed) m.channel.waiting { m with calls := cs' }
  have dead : (m.bury call).calls = cs'' := by simp only [bury, own, same', same'']
  rw [own] at first
  rw [dead]
  by_cases mine : c = call
  · rw [if_pos mine] at first
    rw [if_pos (mine ▸ List.mem_cons_self)]
    exact told''.settled (told'.settled first (by simp)) (by simp)
  · rw [if_neg mine] at first
    have queued := calls_answers first (.undelivered .replyDropped) m.channel.queue
    rw [same'] at queued
    by_cases inQueue : c ∈ m.channel.queue.map Post.call
    · rw [if_pos inQueue] at queued
      rw [if_pos (List.mem_cons_of_mem _ inQueue)]
      exact told''.settled queued (by simp)
    · rw [if_neg inQueue] at queued
      have waiting := calls_answers queued (.undelivered .closed) m.channel.waiting
      rw [same''] at waiting
      rw [if_neg fun mem => (List.mem_cons.1 mem).elim mine inQueue]
      exact waiting

end waits

theorem gate_passOn (inside : m.gate.ticket? = some t) : m.passOn.gate = m.gate.leave := by
  cases line : m.gate.waiting with
  | nil => rw [passOn_of_nil inside line, Gate.leave, line]
  | cons u us => rw [passOn_of_cons inside line, Gate.leave, line]

theorem journal_passOn (inside : m.gate.ticket? = some t) : m.passOn.journal = m.journal ++
    .left t.call :: (m.gate.waiting.head?.map fun u => .admitted u.call).toList := by
  cases line : m.gate.waiting with
  | nil => simp [passOn_of_nil inside line]
  | cons u us => simp [passOn_of_cons inside line]

theorem channel_passOn (inside : m.gate.ticket? = some t) : m.passOn.channel = m.channel := by
  cases line : m.gate.waiting with
  | nil => rw [passOn_of_nil inside line]
  | cons u us => rw [passOn_of_cons inside line]

section reachable

variable {d : Dispatcher} {capacity : Nat} (h : Reachable d capacity m)
include h

theorem Reachable.visitor_comes (mem : t ∈ m.visitors) (later : Reaches m m') : t ∈ m'.visitors ∨
    .admitted t.call ∈ m'.journal ∨ t.seat = .caller ∧ m'.calls[t.call]? = some .abandoned := by
  induction later with
  | refl => exact .inl mem
  | @tail m' m'' reaches change ih =>
    have next : Reaches m' m'' := .single change
    have reachable : Reachable d capacity m'' := h.trans (reaches.tail change)
    rcases ih with here | came | ⟨own, gave⟩
    · refine (change.acts.visitor_stays here).imp_right (.imp_left fun gone => ?_)
      exact reachable.lawful.admitted_of_left gone
    · exact .inr (.inl (next.subset came))
    · exact .inr (.inr ⟨own, next.later.settled gave (by simp)⟩)

section gone

variable (gone : m.channel.worker = .gone) (later : Reaches m m')
include gone later

theorem Reachable.gone_later : m'.channel.worker = .gone ∧
    m'.journal.filterMap Note.taken? = m.journal.filterMap Note.taken? := by
  obtain ⟨gone', -, taken⟩ := (h.passage_later later).gone gone
  exact ⟨gone', taken⟩

theorem Reachable.turned_away {p : Post} (given : .place p ∈ m.turns) :
    .place p ∈ m'.turns ∨ m'.Settled p.call (.undelivered .closed) := by
  -- The worker is dead for good, so a place that is still a turn finds the channel closed.
  induction later with
  | refl => exact .inl given
  | @tail m' m'' reaches change ih =>
    have before : Reachable d capacity m' := h.trans reaches
    rcases ih with still | settled
    · rcases change.turn_stays still with stays | ⟨ready, deferred, next, same⟩
      · exact .inl stays
      · have closed : m'.channel.isClosed := by
          simp [Channel.isClosed, (h.gone_later gone reaches).1]
        have ticket : p.ticket ∈ m'.tickets := by
          simp only [tickets, entrants, List.mem_append]
          exact .inr (.inl (.inl (List.mem_filterMap.2 ⟨_, still, rfl⟩)))
        have taken : m'' = answer { m' with ready, deferred } p.call (.undelivered .closed) := by
          rw [same, take, place, if_pos]
          exact closed
        rw [taken]
        refine .inr (answer_settles ?_)
        exact (before.orderly.unanswered p.ticket ticket).imp_right And.right
    · exact .inr ((Reaches.later (.single change)).stays settled)

end gone

theorem Reachable.untaken (alive : m.channel.worker ≠ .gone) {p : Post}
    (mem : p ∈ m.channel.queue ++ m.channel.waiting ∨ .place p ∈ m.turns) :
    ticketOf m.journal p.call = some p.ticket ∧ p.call ∉ m.journal.filterMap Note.taken? := by
  have ticket : p.ticket ∈ m.tickets := by
    simp only [tickets, entrants, List.mem_append]
    rcases mem with sent | given
    · exact .inr (.inr (List.mem_map_of_mem sent))
    · exact .inr (.inl (.inl (List.mem_filterMap.2 ⟨_, given, rfl⟩)))
  refine ⟨h.orderly.known p.ticket ticket, fun taken => ?_⟩
  have apart : (m.entered ++ m.line).Nodup := h.sound.once
  have flow : m.entered = m.journal.filterMap Note.taken? ++ m.channel.queue.map Post.call :=
    h.sound.flow alive
  have entered : p.call ∈ m.entered := flow ▸ List.mem_append_left _ taken
  have inLine (mem : p ∈ m.passage.given ++ m.channel.waiting) : False :=
    List.disjoint_of_nodup_append apart entered (List.mem_map_of_mem mem)
  rcases mem with sent | given
  · rcases List.mem_append.1 sent with queued | waits
    · have once := apart.of_append_left
      rw [flow] at once
      exact List.disjoint_of_nodup_append once taken (List.mem_map_of_mem queued)
    · exact inLine (List.mem_append_right _ waits)
  · exact inLine (List.mem_append_left _ (List.mem_filterMap.2 ⟨_, given, rfl⟩))

end reachable

/-- The configurations of a dispatcher with a channel of the given capacity that are reached while
nothing breaks down in a dispatch that the worker runs. -/
def Calm (d : Dispatcher) (capacity : Nat) : Machine → Prop :=
  Relation.ReflTransGen (fun m m' => Change m m' ∧ ¬ m.WorkerBreaks m') (.start d capacity)

/-- With this change the history or the sink broke down in the dispatch that the worker ran for the
ticket. -/
structure Fails (d : Dispatcher) (m m' : Machine) (t : Ticket) : Prop where
  running : m.gate.ticket? = some t ∧ t.seat = .worker
  dropped : ∀ call ∈ t.call :: m.channel.queue.map Post.call, m.isPending call →
    m'.calls[call]? = some (.answered (.undelivered .replyDropped))
  /-- Those who waited for room find the channel closed, also if they had just been given some. -/
  closed : ∀ p ∈ m.channel.waiting, m.isPending p.call →
    m'.calls[p.call]? = some (.answered (.undelivered .closed))
  given : ∀ p, .place p ∈ m.turns → ∀ m'', Reaches m' m'' →
    .place p ∈ m''.turns ∨ m''.Settled p.call (.undelivered .closed)
  others : ∀ call ∉ t.call :: (m.channel.queue ++ m.channel.waiting).map Post.call,
    m'.calls[call]? = m.calls[call]?
  later : ∀ m'', Reaches m' m'' → ∀ command args,
    (m''.submit (.dispatch .queued command args)).calls[m''.calls.length]? =
      some (.answered (.undelivered .closed))
  unserved : ∀ p, p ∈ m.channel.queue ++ m.channel.waiting ∨ .place p ∈ m.turns →
    ∀ m'', Reaches m' m'' → .admitted p.call ∉ m''.journal ∧
      ∀ n ∈ m''.journal, n.run? ≠ some p.call ∧ n.contributor? ≠ some p.call
  last : ∀ m'' m₃, Reaches m' m'' → ¬ m''.WorkerBreaks m₃
  kept : ∃ outcome result, .committed t.call outcome result m'.status ∈ m'.journal
  handsOn : m'.gate = m.gate.leave
  /-- The next one at the gate finds just that, and whoever comes after finds it too, unless others
  have published something since. -/
  finds : ∃ before, m'.journal = before ++ .left t.call ::
      (m.gate.waiting.head?.map fun u => .admitted u.call).toList ∧
    ∀ m'', Reaches m' m'' → ∀ mid call since,
      m''.journal = before ++ .left t.call :: mid ++ .admitted call :: since →
      ∀ n ∈ m''.journal, n.finds call (statusAfter m'.status mid)
  comes : ∀ u ∈ m.visitors, ∀ m'', Reaches m' m'' → u ∈ m''.visitors ∨
    .admitted u.call ∈ m''.journal ∨ u.seat = .caller ∧ m''.calls[u.call]? = some .abandoned
  /-- When nothing can go on and the gate is free, nobody is left there, and whoever comes by
  another way gets in at once. -/
  opens : ∀ m'', Reaches m' m'' → m''.isQuiet → m''.gate.isFree → m''.visitors = [] ∧
    ∀ v : Move, v.opens → v.sends = false → .admitted m''.calls.length ∈ (m''.move v).journal

variable {d : Dispatcher} {capacity : Nat}

theorem Calm.alive (h : Calm d capacity m) : m.channel.worker ≠ .gone ∧
    ∀ (call : Nat) e, m.calls[call]? ≠ some (.answered (.undelivered e)) := by
  induction h with
  | refl => exact ⟨by simp [start, Channel.withCapacity], by simp [start]⟩
  | tail _ step ih =>
    cases fates step.1 with
    | spared gone told =>
      refine ⟨fun dead => ih.1 (gone dead), fun call e now => ?_⟩
      exact (told call e now).elim (ih.2 call e) ih.1
    | dies _ _ _ _ _ _ _ _ broke => exact absurd broke step.2

theorem Staffed.nobody (h : Staffed 0 0 m) (gone : m.channel.worker = .gone)
    (inside : m.gate.ticket? = some t) : t.seat ≠ .worker := by
  intro sent
  have errands := h.busy
  simp [gone, Machine.errands, inside, sent] at errands

structure Dies (m m' : Machine) (t : Ticket) : Prop where
  inside : m.gate.ticket? = some t
  sent : t.seat = .worker
  gone : m'.channel.worker = .gone
  gate : m'.gate = m.gate.leave
  journal : ∃ news, (∀ n ∈ news, n.isInner) ∧ m'.journal = m.journal ++ news ++ .left t.call ::
    (m.gate.waiting.head?.map fun u => .admitted u.call).toList
  told : ∀ call, m.isPending call → m'.calls[call]? = some (
    if call ∈ t.call :: m.channel.queue.map Post.call then .answered (.undelivered .replyDropped)
    else if call ∈ m.channel.waiting.map Post.call then .answered (.undelivered .closed)
    else .pending)
  settled : ∀ (call : Nat) p, m.calls[call]? = some p → p ≠ .pending → m'.calls[call]? = some p
  length : m'.calls.length = m.calls.length
  kept : ∃ outcome result, .committed t.call outcome result m'.status ∈ m'.journal

/-- When the history or the sink breaks down for the worker it dies in that very turn. -/
theorem Reachable.dies (h : Reachable d capacity m) (c : Change m m') (broke : m.WorkerBreaks m') :
    ∃ t, Dies m m' t := by
  cases fates c with
  | spared _ _ calm => exact absurd broke calm
  | @dies t stage status news r e ledger telemetry recorded payload share ready deferred stage'
      permits held sent next publishes records same =>
    have picked : Accounted d m.gate.phase { m with ready, deferred } :=
      h.accounted.pick ready deferred
    have published := publishes.lawful picked.alike (picked.stands held)
    obtain ⟨outcome, committed⟩ := published.published_now
    have inner : ∀ n ∈ news ++ recorded, n.isInner :=
      List.forall_mem_append.2 ⟨publishes.inner, records.inner⟩
    generalize began : within { m with ready, deferred } t stage'
      { m.dispatcher with ledger, telemetry, status } permits (news ++ recorded) = w at same
    have holds : w.gate.ticket? = some t := by rw [← began]; rfl
    have calls : w.passOn.calls = m.calls := by rw [calls_passOn, ← began]; rfl
    have channel : w.passOn.channel = m.channel := by rw [channel_passOn holds, ← began]; rfl
    obtain ⟨calls', died, -, -, told⟩ := w.passOn.bury_eq t.call
    have now := same.trans died
    have journal : m'.journal = m.journal ++ (news ++ recorded) ++ .left t.call ::
        (m.gate.waiting.head?.map fun u => .admitted u.call).toList := by
      rw [now]
      exact (journal_passOn holds).trans (by rw [← began]; rfl)
    have dispatcher : m'.dispatcher = { m.dispatcher with ledger, telemetry, status } := by
      rw [same, dispatcher_bury, dispatcher_passOn, ← began]
      rfl
    refine ⟨t, Gate.ticket?_eq_some.2 ⟨stage, held⟩, sent, by rw [now], ?_, ⟨_, inner, journal⟩,
      fun call waits => ?_, fun call p given settled => ?_, ?_, outcome, r, ?_⟩
    · rw [now]
      exact (gate_passOn holds).trans (by rw [← began]; rfl)
    · rw [isPending_iff, ← calls] at waits
      rw [same, calls_bury waits, channel]
    · rw [now]
      exact told.settled (calls ▸ given) settled
    · rw [now, ← calls]
      exact told.length
    · have seen : m'.status = status := by rw [Machine.status, dispatcher]
      rw [seen, journal]
      simp only [List.mem_append] at committed ⊢
      exact .inl (committed.imp_right .inl)

theorem statusAfter_of_admits (s : Status) (us : Option Ticket) (call : Nat) :
    statusAfter s (.left call :: (us.map fun u => Note.admitted u.call).toList) = s := by
  cases us <;> rfl

theorem statusAfter_left (s : Status) (call : Nat) (j : List Note) :
    statusAfter s (.left call :: j) = statusAfter s j := rfl

section dies

variable {t : Ticket} (dies : Dies m m' t) (h : Reachable d capacity m) (c : Change m m')
include dies

theorem Dies.others {call : Nat}
    (other : call ∉ t.call :: (m.channel.queue ++ m.channel.waiting).map Post.call) :
    m'.calls[call]? = m.calls[call]? := by
  cases before : m.calls[call]? with
  | none =>
    rw [List.getElem?_eq_none_iff] at before ⊢
    rwa [dies.length]
  | some p =>
    by_cases waits : p = .pending
    · subst waits
      simp only [List.map_append, List.mem_cons, List.mem_append, not_or] at other
      rw [dies.told _ (isPending_iff.2 before)]
      simp [other]
    · exact dies.settled call p before waits

include h

theorem Dies.alive : m.channel.worker ≠ .gone :=
  fun gone => h.staffed.nobody gone dies.inside dies.sent

theorem Dies.apart {p : Post} (mem : p ∈ m.channel.waiting) :
    p.call ∉ t.call :: m.channel.queue.map Post.call := by
  intro dropped
  rcases List.mem_cons.1 dropped with same | queued
  · have waiting : p.ticket ∈ m.entrants := by
      simp only [entrants, List.mem_append]
      exact .inr (List.mem_map_of_mem (List.mem_append_right _ mem))
    have apart : Tracked m.entrants ([t] ++ m.entrants) m := by
      have orderly := h.orderly
      rwa [Orderly, tickets, dies.inside] at orderly
    exact apart.ne_of_append (List.mem_singleton_self t) waiting same
  · have flow : m.entered = m.journal.filterMap Note.taken? ++ m.channel.queue.map Post.call :=
      h.sound.flow (dies.alive h)
    exact (h.waiting_apart mem).1 (flow ▸ List.mem_append_right _ queued)

include c

theorem Dies.given {p : Post} (given : .place p ∈ m.turns) : .place p ∈ m'.turns := by
  rcases c.turn_stays given with stays | ⟨ready, deferred, -, same⟩
  · exact stays
  · have spared : Spared { m with ready, deferred } m' := by
      rw [same]
      exact .take _ fun share this => by cases this
    exact absurd (spared.gone dies.gone) (dies.alive h)

theorem Dies.unserved {p : Post}
    (mem : p ∈ m.channel.queue ++ m.channel.waiting ∨ .place p ∈ m.turns) {m'' : Machine}
    (later : Reaches m' m'') : .admitted p.call ∉ m''.journal ∧
      ∀ n ∈ m''.journal, n.run? ≠ some p.call ∧ n.contributor? ≠ some p.call := by
  have after : Reachable d capacity m' := h.tail c
  have reachable : Reachable d capacity m'' := after.trans later
  obtain ⟨known, out⟩ := h.untaken (dies.alive h) mem
  obtain ⟨since, grows, -⟩ := (Reaches.later (.head c later)).journal
  refine reachable.untouched (t := p.ticket) (grows ▸ ticketOf_of_append _ known) rfl ?_
  obtain ⟨news, inner, journal⟩ := dies.journal
  have none : news.filterMap Note.taken? = [] :=
    List.filterMap_eq_nil_iff.2 fun n mem => (Note.foreign_of_isInner (inner n mem)).2
  have silent (us : Option Ticket) : ((Note.left t.call) ::
      (us.map fun u => Note.admitted u.call).toList).filterMap Note.taken? = [] := by
    cases us <;> rfl
  rw [(after.gone_later dies.gone later).2, journal, List.filterMap_append,
    List.filterMap_append, none, silent, List.append_nil, List.append_nil]
  exact out

theorem Dies.finds : ∃ before, m'.journal = before ++ .left t.call ::
      (m.gate.waiting.head?.map fun u => .admitted u.call).toList ∧
    ∀ m'', Reaches m' m'' → ∀ mid call since,
      m''.journal = before ++ .left t.call :: mid ++ .admitted call :: since →
      ∀ n ∈ m''.journal, n.finds call (statusAfter m'.status mid) := by
  have after : Reachable d capacity m' := h.tail c
  obtain ⟨news, -, journal⟩ := dies.journal
  refine ⟨m.journal ++ news, journal, fun m'' later mid call since same => ?_⟩
  have reachable : Reachable d capacity m'' := after.trans later
  have found : statusAfter d.status (m.journal ++ news) = m'.status := by
    have seen : m'.status = statusAfter d.status m'.journal := after.lawful.status_eq
    rw [seen, journal, statusAfter_append d.status (m.journal ++ news), statusAfter_of_admits]
  have finds := Lawful.finds (same ▸ reachable.lawful)
  rw [statusAfter_append, statusAfter_left, found] at finds
  exact same ▸ finds

end dies

theorem Reachable.fails (h : Reachable d capacity m) (c : Change m m') (broke : m.WorkerBreaks m') :
    ∃ t, Fails d m m' t := by
  obtain ⟨t, dies⟩ := h.dies c broke
  have after : Reachable d capacity m' := h.tail c
  refine ⟨t, ?_⟩
  constructor
  case running => exact ⟨dies.inside, dies.sent⟩
  case kept => exact dies.kept
  case handsOn => exact dies.gate
  case comes => exact fun u mem m'' later => h.visitor_comes mem (.head c later)
  case others => exact fun call other => dies.others other
  case unserved => exact fun p mem m'' later => dies.unserved h c mem later
  case finds => exact dies.finds h c
  case given =>
    exact fun p given m'' later => after.turned_away dies.gone later (dies.given h c given)
  case dropped =>
    intro call mem waits
    rw [dies.told call waits, if_pos mem]
  case closed =>
    intro p mem waits
    rw [dies.told _ waits, if_neg (dies.apart h mem), if_pos (List.mem_map_of_mem mem)]
  case later =>
    intro m'' later command args
    have gone := (after.gone_later dies.gone later).1
    simp [submit, dispatch, Path.seat, send, gone, Channel.isClosed, answer, isPending, setProgress,
      openCall, note]
  case last =>
    rintro m'' m₃ later ⟨-, u, holds, sent⟩
    have reachable : Reachable d capacity m'' := after.trans later
    exact reachable.staffed.nobody (after.gone_later dies.gone later).1 holds sent
  case opens =>
    intro m'' later quiet free
    have reachable : Reachable d capacity m'' := after.trans later
    refine ⟨?_, fun v opens unsent => ?_⟩
    · refine List.eq_nil_iff_forall_not_mem.2 fun u here => ?_
      have ticket := mem_tickets_of_visitor here
      rw [(reachable.tickets_eq_nil quiet free).1] at ticket
      cases ticket
    · refine reachable.admits_next quiet free opens fun sends => ?_
      rw [unsent] at sends
      cases sends

/-- As long as neither the history nor the sink breaks down in a dispatch that the worker runs, the
worker lives and no sender is told that its request is lost or turned away, whatever handlers do.
When one does, the worker dies with that dispatch, and what becomes of everybody is as said. -/
theorem channel_failure (d : Dispatcher) (capacity : Nat) :
    (∀ m, Calm d capacity m → m.channel.worker ≠ .gone ∧
      ∀ (call : Nat) e, m.calls[call]? ≠ some (.answered (.undelivered e))) ∧
    ∀ m m', Reachable d capacity m → Change m m' → m.WorkerBreaks m' → ∃ t, Fails d m m' t :=
  ⟨fun _ calm => calm.alive, fun _ _ h c broke => h.fails c broke⟩

/-- The worker runs a start while a stop is in the queue, a sender waits for room and a health check
waits at the gate. The start gets its permit, and then the history breaks down. -/
theorem channel_failure_of_brittle_history :
    (∃ m : Machine, Calm .brittle 1 m ∧ m.channel.queue ≠ [] ∧ m.channel.worker ≠ .gone) ∧
    ∃ (m : Machine) (t : Ticket), Reachable .brittle 1 m ∧ m.WorkerBreaks m.step ∧ t.call = 0 ∧
      Fails .brittle m m.step t ∧ m.step.calls = [.answered (.undelivered .replyDropped),
        .answered (.undelivered .replyDropped), .answered (.undelivered .closed), .pending] := by
  have calm : Calm .brittle 1 ((start .brittle 1).submit (.dispatch .queued .start .empty)) :=
    .single ⟨.move _ trivial, fun broke => by obtain ⟨-, t, inside, -⟩ := broke; cases inside⟩
  have reachable : Reachable .brittle 1 (((start .brittle 1).run
      [.dispatch .queued .start .empty, .dispatch .queued .stop .empty,
        .dispatch .queued .start .empty, .dispatch .attached .healthCheck .empty]).submit
      (.release 1)) := (reachable_run .brittle 1 _).tail (.move (.release 1) trivial)
  refine ⟨⟨_, calm, List.cons_ne_nil _ _, ((channel_failure .brittle 1).1 _ calm).1⟩, ?_⟩
  obtain ⟨t, fails⟩ := (channel_failure .brittle 1).2 _ _ reachable .turn
    ⟨.inl ⟨by decide, rfl⟩, _, rfl, rfl⟩
  refine ⟨_, t, reachable, ⟨.inl ⟨by decide, rfl⟩, _, rfl, rfl⟩, ?_, fails, rfl⟩
  have running := fails.running.1
  cases running
  rfl

end Machine

end Lifecycle
