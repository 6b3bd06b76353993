import Lifecycle.Proofs.Outcomes

/-! The order of the channel. The queue never holds more than its capacity; the worker dispatches
just the requests that entered it, each once and in that order; who waits for room enters in the
order of the calls, and does not enter any more once it has given up. -/

namespace Lifecycle.Machine

variable {d : Dispatcher} {capacity : Nat} {m m' : Machine} {t : Ticket} {call : Nat}

def entered (m : Machine) : List Nat := m.journal.filterMap Note.entered?

def line (m : Machine) : List Nat :=
  (m.turns.filterMap Turn.post? ++ m.channel.waiting).map Post.call

def delivered (m : Machine) : List (Nat × Result) :=
  m.outcomes.filter fun x => (ticketOf m.journal x.1).any (·.seat == .worker)

def inHand (m : Machine) : List Nat := (m.atGate .worker).map Ticket.call

theorem mem_entered : call ∈ m.entered ↔ .queued call ∈ m.journal := by
  rw [entered, List.mem_filterMap]
  constructor
  · rintro ⟨n, mem, same⟩
    cases n <;> cases same
    exact mem
  · exact fun mem => ⟨_, mem, rfl⟩

section reachable

variable (h : Reachable d capacity m)
include h

theorem Reachable.alive (unbroken : d.Unbroken) : m.channel.worker ≠ .gone := by
  intro gone
  obtain ⟨payload, breaks⟩ := h.warranted.gone gone
  exact unbroken.never payload breaks

theorem Reachable.went_eq (unbroken : d.Unbroken) :
    m.went .worker = m.delivered.map Prod.fst := by
  have same := h.lawful.left_eq unbroken
    (q := fun call => (ticketOf m.journal call).any (·.seat == .worker)) fun t known sent => by
      have own : t.seat = .worker := by simpa [known] using sent
      refine ⟨by simp [own], fun state work => ?_⟩
      cases own.symm.trans (h.orderly.owned t (mem_of_ticketOf known) state work)
  have rest : m.gate.phase.closing? = none := by
    cases held : m.gate.holder with
    | none => simp [Gate.phase, held, Phase.closing?]
    | some x =>
      obtain ⟨t, _ | _ | _⟩ := x <;> simp [Gate.phase, held, Holding.phase, Phase.closing?]
  rw [rest, Option.toList_none, List.filter_nil, List.append_nil] at same
  rw [went, ← same, delivered, outcomes, List.filter_map]
  rfl

theorem Reachable.entered_eq (unbroken : d.Unbroken) : m.entered =
    m.delivered.map Prod.fst ++ (m.inHand ++ m.channel.queue.map Post.call) := by
  have flow : m.entered = m.journal.filterMap Note.taken? ++ m.channel.queue.map Post.call :=
    h.sound.flow (h.alive unbroken)
  rw [flow, h.taken_eq, h.went_eq unbroken, List.append_assoc, inHand]

theorem Reachable.entered_of_quiet (unbroken : d.Unbroken) (quiet : m.isQuiet)
    (free : m.gate.isFree) : m.entered = m.delivered.map Prod.fst := by
  have none := (h.tickets_eq_nil quiet free).1
  have hand : m.atGate .worker = [] := List.eq_nil_iff_forall_not_mem.2 fun t mem => by
    have ticket := mem_tickets_of_visitor (List.mem_of_mem_filter mem)
    rw [none] at ticket
    cases ticket
  have queue : m.channel.queue = [] := List.eq_nil_iff_forall_not_mem.2 fun p mem => by
    have ticket : p.ticket ∈ m.tickets := by
      simp only [tickets, entrants, List.mem_append]
      exact .inr (.inr (List.mem_map_of_mem (List.mem_append_left _ mem)))
    rw [none] at ticket
    cases ticket
  rw [h.entered_eq unbroken, inHand, hand, queue]
  simp

theorem Reachable.not_heldBy (known : ticketOf m.journal t.call = some t)
    (detached : t.seat ≠ .caller) : ¬ m.gate.heldBy t.call := by
  intro held
  obtain ⟨u, inside, same, own⟩ := Gate.heldBy_iff.1 held
  cases h.orderly.eq_of_call known (by simp [tickets, inside]) same
  exact detached own

theorem Reachable.suspended_of_sent (known : ticketOf m.journal t.call = some t)
    (sent : t.seat = .worker) (here : ∀ p, .place p ∈ m.turns → p.call ≠ t.call) :
    m.Suspended t.call := by
  have detached : t.seat ≠ .caller := by simp [sent]
  intro turn mem
  refine Bool.eq_false_iff.2 fun owns => ?_
  cases turn with
  | arrive u =>
    obtain ⟨same, own⟩ : u.call = t.call ∧ u.seat = .caller := by simpa [Machine.owns] using owns
    have ticket : u ∈ m.tickets := by
      simp only [tickets, entrants, List.mem_append, List.mem_filterMap]
      exact .inr (.inl (.inl ⟨_, mem, rfl⟩))
    cases h.orderly.eq_of_call known ticket same
    exact detached own
  | proceed share => exact h.not_heldBy known detached owns
  | collect share => cases owns
  | place p => exact here p mem (by simpa [Machine.owns] using owns)
  | report c command payload =>
    obtain rfl : c = t.call := by simpa [Machine.owns] using owns
    obtain ⟨⟨u, known', own⟩, -⟩ := h.orderly.reported _ ⟨command, payload, mem⟩
    cases known.symm.trans known'
    cases sent.symm.trans own

theorem Reachable.queue_le : m.channel.queue.length ≤ max capacity 1 := by
  have room : m.channel.queue.length + m.passage.given.length ≤ m.channel.capacity := h.sound.room
  rw [h.capacity_eq] at room
  omega

/-- Those in line enter in the order of the line, whoever comes after them. -/
theorem Reachable.line_enters (later : Reaches m m') : ∃ since, m'.entered = m.entered ++ since ∧
    (since.filter (· ∈ m.line)).Sublist m.line := by
  obtain ⟨since, same, -, order⟩ := (h.passage_later later).entered
  refine ⟨since, same, .trans ?_ order⟩
  rw [List.filter_append]
  exact List.sublist_append_left ..

theorem Reachable.ticket_of_waiting {p : Post} (mem : p ∈ m.channel.waiting) :
    ticketOf m.journal p.call = some p.ticket := by
  refine h.orderly.known p.ticket ?_
  simp only [tickets, entrants, List.mem_append]
  exact .inr (.inr (List.mem_map_of_mem (List.mem_append_right _ mem)))

theorem Reachable.untouched (known : ticketOf m.journal t.call = some t) (sent : t.seat = .worker)
    (out : t.call ∉ m.journal.filterMap Note.taken?) : .admitted t.call ∉ m.journal ∧
      ∀ n ∈ m.journal, n.run? ≠ some t.call ∧ n.contributor? ≠ some t.call := by
  have never : .admitted t.call ∉ m.journal := fun admitted =>
    out (h.taken_of_admitted known sent admitted)
  refine ⟨never, fun n mem => ⟨fun own => never ?_, fun own => never ?_⟩⟩
  · exact h.lawful.admitted_of_run mem own
  · exact h.lawful.admitted_of_contributor mem own

theorem Reachable.waiting_apart {p : Post} (mem : p ∈ m.channel.waiting) :
    p.call ∉ m.entered ∧ ∀ q, .place q ∈ m.turns → q.call ≠ p.call := by
  have once := h.sound.once
  have waits : p.call ∈ m.channel.waiting.map Post.call := List.mem_map_of_mem mem
  rw [Passage.line, List.map_append] at once
  refine ⟨fun entered => ?_, fun q given same => ?_⟩
  · exact List.disjoint_of_nodup_append once entered (List.mem_append_right _ waits)
  · have mem : q.call ∈ m.passage.given.map Post.call :=
      List.mem_map_of_mem (List.mem_filterMap.2 ⟨_, given, rfl⟩)
    exact List.disjoint_of_nodup_append once.of_append_right mem (same ▸ waits)

theorem Reachable.never_enters {p : Post} (mem : p ∈ m.channel.waiting)
    (waits : m.isPending p.call) (later : Reaches (m.submit (.abandon p.call)) m') :
    Reachable d capacity m' ∧ p.call ∉ m'.entered := by
  have known := h.ticket_of_waiting mem
  obtain ⟨outside, apart⟩ := h.waiting_apart mem
  have suspended := h.suspended_of_sent (t := p.ticket) known rfl apart
  have between : Reachable d capacity (m.submit (.abandon p.call)) :=
    h.tail (.move (.abandon p.call) suspended)
  have left := abandon_of_not_held waits (h.not_heldBy (t := p.ticket) known nofun)
  refine ⟨between.trans later, fun entered => ?_⟩
  obtain ⟨since, same, fresh, -⟩ := (between.passage_later later).entered
  have entered : p.call ∈ m'.passage.entered := entered
  rw [same, List.mem_append] at entered
  rcases entered with old | new
  · rw [submit, left] at old
    exact outside old
  · have less := h.orderly.numbered _ (mem_of_ticketOf known)
    rcases fresh p.call (List.mem_append_left _ new) with inLine | late
    · rw [submit, left, Passage.line, List.map_append, List.mem_append] at inLine
      rcases inLine with given | waiting
      · obtain ⟨q, given, same⟩ := List.mem_map.1 given
        obtain ⟨turn, place, post⟩ := List.mem_filterMap.1 given
        cases turn <;> cases post
        exact apart q place same
      · obtain ⟨q, waiting, same⟩ := List.mem_map.1 waiting
        exact (Channel.mem_waiting_withdraw.1 waiting).2 same
    · rw [submit, left] at late
      change (m.calls.set p.call .abandoned).length ≤ p.call at late
      rw [List.length_set] at late
      exact absurd less (Nat.not_lt.2 late)

theorem Reachable.sent_of_entered (unbroken : d.Unbroken) (mem : call ∈ m.entered) :
    ∃ t, ticketOf m.journal call = some t ∧ t.seat = .worker := by
  have flow : m.entered = m.journal.filterMap Note.taken? ++ m.channel.queue.map Post.call :=
    h.sound.flow (h.alive unbroken)
  rw [flow, h.taken_eq, List.mem_append, List.mem_append] at mem
  rcases mem with (gone | hand) | queued
  · exact (mem_went.1 gone).2
  · obtain ⟨t, here, rfl⟩ := List.mem_map.1 hand
    obtain ⟨visits, own⟩ := List.mem_filter.1 here
    exact ⟨t, h.orderly.known t (mem_tickets_of_visitor visits), by simpa using own⟩
  · obtain ⟨p, inQueue, rfl⟩ := List.mem_map.1 queued
    refine ⟨p.ticket, h.orderly.known p.ticket ?_, rfl⟩
    simp only [tickets, entrants, List.mem_append]
    exact .inr (.inr (List.mem_map_of_mem (List.mem_append_left _ inQueue)))

theorem Reachable.entered_still (unbroken : d.Unbroken) (mem : call ∈ m.entered)
    (later : Reaches (m.submit (.abandon call)) m') :
    Reachable d capacity m' ∧ call ∈ m'.entered := by
  obtain ⟨t, known, sent⟩ := h.sent_of_entered unbroken mem
  obtain rfl := ticketOf_call known
  have suspended := h.suspended_of_sent known sent fun p given same => by
    have inLine : p.call ∈ m.passage.line :=
      List.mem_map_of_mem (List.mem_append_left _ (List.mem_filterMap.2 ⟨_, given, rfl⟩))
    exact List.disjoint_of_nodup_append h.sound.once mem (same ▸ inLine)
  have reaches : Reaches m m' := .head (.move (.abandon t.call) suspended) later
  obtain ⟨since, same, -⟩ := (h.passage_later reaches).entered
  have entered : m'.entered = m.entered ++ since := same
  exact ⟨h.trans reaches, entered ▸ List.mem_append_left _ mem⟩

end reachable

structure InOrder (capacity : Nat) (m : Machine) : Prop where
  bound : m.channel.queue.length ≤ max capacity 1
  /-- What has entered the queue is finished, with the worker or in the queue, in this order, and
  nothing else is; the worker has one request at a time. -/
  dispatched : m.entered = m.delivered.map Prod.fst ++ (m.inHand ++ m.channel.queue.map Post.call)
  single : m.inHand.length ≤ 1
  once : m.entered.Nodup
  finished : m.isQuiet → m.gate.isFree → m.entered = m.delivered.map Prod.fst
  line : m.line.Pairwise (· < ·)
  enters : ∀ m', Reaches m m' → ∃ since, m'.entered = m.entered ++ since ∧
    (since.filter (· ∈ m.line)).Sublist m.line
  givenUp : ∀ p ∈ m.channel.waiting, m.isPending p.call →
    ∀ m', Reaches (m.submit (.abandon p.call)) m' → p.call ∉ m'.entered ∧
      .admitted p.call ∉ m'.journal ∧
      ∀ n ∈ m'.journal, n.run? ≠ some p.call ∧ n.contributor? ≠ some p.call
  handedOver : ∀ call ∈ m.entered, m.isPending call →
    ∀ m', Reaches (m.submit (.abandon call)) m' →
      call ∈ m'.delivered.map Prod.fst ++ (m'.inHand ++ m'.channel.queue.map Post.call) ∧
      (m'.isQuiet → m'.gate.isFree → call ∈ m'.delivered.map Prod.fst)

/-- If nothing breaks down, every channel keeps its order, whatever other callers do. -/
theorem channel_in_order (h : Reachable d capacity m) (unbroken : d.Unbroken) :
    m.InOrder capacity where
  bound := h.queue_le
  dispatched := h.entered_eq unbroken
  single := by
    rw [inHand, List.length_map]
    exact h.length_atGate
  once := h.sound.once.of_append_left
  finished := h.entered_of_quiet unbroken
  line := h.sound.ordered
  enters _ later := h.line_enters later
  givenUp p mem waits m' later := by
    obtain ⟨reachable, never⟩ := h.never_enters mem waits later
    have known := h.ticket_of_waiting mem
    have suspended := h.suspended_of_sent (t := p.ticket) known rfl (h.waiting_apart mem).2
    obtain ⟨news, same, -⟩ :=
      (Reaches.later (.head (.move (.abandon p.call) suspended) later)).journal
    have known' : ticketOf m'.journal p.call = some p.ticket := same ▸ ticketOf_of_append _ known
    refine ⟨never, reachable.untouched (t := p.ticket) known' rfl fun taken => never ?_⟩
    exact reachable.sound.taken.subset taken
  handedOver call mem _ m' later := by
    obtain ⟨reachable, still⟩ := h.entered_still unbroken mem later
    refine ⟨reachable.entered_eq unbroken ▸ still, fun quiet free => ?_⟩
    exact reachable.entered_of_quiet unbroken quiet free ▸ still

/-- While the worker is blocked with a start, one request waits in the queue and two senders in
line; the first of these gives up. -/
theorem channel_in_order_while_start_blocks :
    ∃ m : Machine, Reachable .patient 0 m ∧ m.InOrder 0 ∧ m.inHand = [0] ∧ m.entered = [0, 1] ∧
      m.line = [2, 3] ∧ ∀ m', Reaches (m.submit (.abandon 2)) m' → 2 ∉ m'.entered := by
  have reachable := reachable_run .patient 0
    [.dispatch .queued .start .empty, .dispatch .queued .stop .empty,
      .dispatch .queued .start .empty, .dispatch .queued .pause .empty]
  have order := channel_in_order reachable ⟨fun _ => rfl, fun _ => rfl⟩
  have never := order.givenUp ⟨2, .start, .empty⟩ List.mem_cons_self rfl
  refine ⟨_, reachable, order, ?_, ?_, ?_, fun m' later => (never m' later).1⟩ <;> rfl

end Lifecycle.Machine
