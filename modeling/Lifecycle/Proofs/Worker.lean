import Lifecycle.Proofs.Attended

/-! The channel's worker has one errand at a time, and none exactly while it waits or is dead. So a
request in the channel has somebody who will come for it. -/

namespace Lifecycle

def Turn.isErrand : Turn → Bool
  | .collect _ => true
  | .arrive t => t.seat == .worker
  | _ => false

namespace Machine

/-- What the worker is about: a turn of its own, or a ticket at the gate. -/
def errands (m : Machine) : Nat :=
  m.turns.countP Turn.isErrand +
    (m.gate.ticket?.toList ++ m.gate.waiting).countP (·.seat == .worker)

/-- The worker and the channel, while so many errands and senders with room are in the hand of a
turn. -/
structure Staffed (errand room : Nat) (m : Machine) : Prop where
  busy : m.errands + errand = if m.channel.worker = .busy then 1 else 0
  idle : m.channel.worker = .idle → m.channel.queue = []
  gone : m.channel.worker = .gone → m.channel.queue = [] ∧ m.channel.waiting = []
  full : m.channel.waiting ≠ [] →
    m.channel.capacity ≤ m.channel.queue.length + m.turns.countP Turn.isPlace + room
  capacity : 0 < m.channel.capacity

end Machine

def Ticket.errand (t : Ticket) : Nat := if t.seat == .worker then 1 else 0

theorem Ticket.errand_of_worker {t : Ticket} (own : t.seat = .worker) : t.errand = 1 := by
  simp [errand, own]

theorem Ticket.errand_of_ne {t : Ticket} (own : t.seat ≠ .worker) : t.errand = 0 := by
  simp [errand, own]

def Hand.errand : Hand → Nat
  | .turn next => if next.isErrand then 1 else 0
  | .comer t => t.errand
  | .left t (.account ..) => t.errand
  | _ => 0

def Hand.room : Hand → Nat
  | .turn next => if next.isPlace then 1 else 0
  | _ => 0

namespace Machine

variable {errand room : Nat} {m m' : Machine} {t : Ticket}

namespace Staffed

theorem frame (h : Staffed errand room m) {errand' : Nat} (channel : m'.channel = m.channel)
    (errands : m'.errands + errand' = m.errands + errand)
    (places : m'.turns.countP Turn.isPlace = m.turns.countP Turn.isPlace) :
    Staffed errand' room m' where
  busy := by rw [errands, channel, h.busy]
  idle := by rw [channel]; exact h.idle
  gone := by rw [channel]; exact h.gone
  full := by rw [channel, places]; exact h.full
  capacity := by rw [channel]; exact h.capacity

theorem passOn (h : Staffed 0 room m) (inside : m.gate.ticket? = some t) :
    Staffed t.errand room m.passOn := by
  cases line : m.gate.waiting with
  | nil =>
    rw [passOn_of_nil inside line]
    refine h.frame rfl ?_ rfl
    simp [errands, inside, line, turns, Ticket.errand]
  | cons u us =>
    rw [passOn_of_cons inside line]
    refine h.frame rfl ?_ ?_
    · simp [errands, inside, line, turns, Ticket.errand, List.countP_cons, Turn.isErrand]
      omega
    · simp [turns, Turn.isPlace]

theorem answer (h : Staffed errand room m) (call : Nat) (a : Answer) :
    Staffed errand room (m.answer call a) := by
  obtain ⟨calls, same, -, -⟩ := m.answer_eq call a
  rw [same]
  exact h.frame rfl rfl rfl

theorem closes (h : Staffed t.errand 0 m) {command : Command} {e : Ending}
    (closes : Closes t command m e m') : Staffed 0 0 m' := by
  cases closes with
  | told own =>
    rw [Ticket.errand_of_ne own] at h
    exact h.answer ..
  | panicked own =>
    rw [Ticket.errand_of_ne (by simp [own])] at h
    exact h.answer ..
  | reported own =>
    rw [Ticket.errand_of_ne (by simp [own])] at h
    refine h.frame rfl ?_ ?_
    · simp [errands, turns, wake, Turn.isErrand]
    · simp [turns, wake, Turn.isPlace]
  | unheard own =>
    rwa [Ticket.errand_of_ne (by simp [own])] at h
  | replied own =>
    rw [Ticket.errand_of_worker own] at h
    refine (h.answer ..).frame rfl ?_ ?_
    · simp [errands, turns, resume, log, List.countP_cons, Turn.isErrand]
      omega
    · simp [turns, resume, log, Turn.isPlace]
  | buried own =>
    obtain ⟨calls, same, -, -, -⟩ := m.bury_eq t.call
    rw [Ticket.errand_of_worker own] at h
    rw [same]
    have one := h.busy
    refine ⟨?_, by simp, fun _ => ⟨rfl, rfl⟩, fun some => absurd rfl some, h.capacity⟩
    change m.errands + 0 = 0
    split at one <;> omega

theorem within (h : Staffed 0 0 m) {stage : Stage} (held : m.gate.holder = some ⟨t, stage⟩)
    (stage' : Stage) (dispatcher : Dispatcher) (permits : Nat) (news : List Note) :
    Staffed 0 0 (m.within t stage' dispatcher permits news) := by
  have inside : m.gate.ticket? = some t := Gate.ticket?_eq_some.2 ⟨stage, held⟩
  refine h.frame rfl ?_ rfl
  rw [errands, errands, inside]
  rfl

theorem putOffProceed (h : Staffed 0 0 m) (share : Nat) :
    Staffed 0 0 (m.putOff (.proceed share)) := by
  refine h.frame rfl ?_ ?_
  · simp [errands, turns, putOff, Turn.isErrand]
  · simp [turns, putOff, Turn.isPlace]

theorem places (h : Staffed 0 room m) (few : room ≤ 1) {p : Post} (places : Places m p m') :
    Staffed 0 0 m' := by
  have one := h.busy
  have full := h.full
  cases places with
  | refused closed =>
    have gone : m.channel.worker = .gone := by simpa [Channel.isClosed] using closed
    obtain ⟨calls, same, -, -⟩ := m.answer_eq p.call (.undelivered .closed)
    rw [same]
    exact ⟨h.busy, h.idle, h.gone, fun line => absurd (h.gone gone).2 line, h.capacity⟩
  | rouses idle =>
    rw [idle, if_neg (by simp)] at one
    refine ⟨?_, by simp, by simp, fun line => ?_, h.capacity⟩
    · refine Eq.trans (b := m.errands + 1) ?_ (congrArg Nat.succ one)
      simp [errands, turns, List.countP_cons, Turn.isErrand]
      omega
    · have before := full line
      simp [turns, Turn.isPlace] at before ⊢
      omega
  | queues busy =>
    refine ⟨one, by simp [busy], by simp [busy], fun line => ?_, h.capacity⟩
    have before := full line
    simp [turns] at before ⊢
    omega

theorem is_busy (h : Staffed 1 room m) : m.channel.worker = .busy := by
  refine Decidable.byContradiction fun other => ?_
  have one := h.busy
  rw [if_neg other] at one
  omega

theorem pick (h : Staffed 0 0 m) {turn : Turn} {ready deferred : List Turn}
    (next : m.turns = turn :: (ready ++ deferred)) :
    Staffed (if turn.isErrand then 1 else 0) (if turn.isPlace then 1 else 0)
      { m with ready, deferred } := by
  have rest : turns { m with ready, deferred } = ready ++ deferred := rfl
  refine ⟨?_, h.idle, h.gone, fun line => ?_, h.capacity⟩
  · have before := h.busy
    rw [errands, next, List.countP_cons] at before
    rw [errands, rest]
    exact Eq.trans (by simp only []; omega) before
  · have before := h.full line
    rw [next, List.countP_cons] at before
    rw [rest]
    exact Nat.le_trans before (by simp only []; omega)

theorem enters (h : Staffed t.errand 0 m) (share : Nat) (free : m.gate.holder = none) :
    Staffed 0 0 { m with
      gate := { m.gate with holder := some { ticket := t } }
      journal := m.journal ++ [.admitted t.call]
      ready := .proceed share :: m.ready } := by
  refine h.frame rfl ?_ ?_
  · simp [errands, turns, List.countP_cons, Turn.isErrand, Ticket.errand, Gate.ticket?, free]
    omega
  · simp [turns, Turn.isPlace]

theorem takes (h : Staffed 1 0 m) {p : Post} {ps : List Post}
    (queue : m.channel.queue = p :: ps) : Staffed 1 0 { m with
      channel := { m.channel with queue := ps, waiting := m.channel.waiting.tail }
      ready := m.ready ++ (m.channel.waiting.head?.map Turn.place).toList
      journal := m.journal ++ [.taken p.call] } := by
  have full := h.full
  have busy := h.is_busy
  refine ⟨?_, by simp [busy], by simp [busy], fun line => ?_, h.capacity⟩
  · rw [← h.busy]
    cases waiting : m.channel.waiting <;> simp [errands, turns, Turn.isErrand]
  · cases waiting : m.channel.waiting with
    | nil => simp [waiting] at line
    | cons w ws =>
      have before := full (by simp [waiting])
      simp [turns, queue, List.countP_cons, Turn.isPlace] at before ⊢
      omega

theorem withdraws (h : Staffed 0 0 m) (call : Nat) : Staffed 0 0 { m with
    calls := m.calls.set call .abandoned
    gate := m.gate.withdraw call
    channel := m.channel.withdraw call } := by
  -- Only tickets of callers and senders in line are withdrawn, and the worker has none of these.
  have kept : (m.gate.withdraw call).waiting.countP (·.seat == .worker) =
      m.gate.waiting.countP (·.seat == .worker) := by
    rw [Gate.withdraw, List.countP_filter]
    refine List.countP_congr fun t _ => ?_
    cases t.seat <;> simp
  have same : errands { m with
      calls := m.calls.set call .abandoned
      gate := m.gate.withdraw call
      channel := m.channel.withdraw call } = m.errands := by
    rw [errands, errands, List.countP_append, List.countP_append, kept]
    rfl
  refine ⟨same ▸ h.busy, h.idle, fun gone => ⟨(h.gone gone).1, ?_⟩, fun line => ?_, h.capacity⟩
  · change m.channel.waiting.filter _ = []
    rw [(h.gone gone).2, List.filter_nil]
  · refine h.full fun nobody => line ?_
    change m.channel.waiting.filter _ = []
    rw [nobody, List.filter_nil]

end Staffed

variable {hand hand' : Hand}

theorem Staffed.act (h : Staffed hand.errand hand.room m) (tracked : TrackedIn hand m)
    (act : Act m hand hand' m') : Staffed hand'.errand hand'.room m' := by
  cases act with
  | steps | sleeps | makes | stays | settled => exact h
  | picks next => exact Staffed.pick h next
  | @reports call command payload ready deferred next =>
    have logged : Staffed 0 0 (log { m with ready, deferred } [.aborted command]) :=
      (Staffed.pick h next).frame rfl rfl rfl
    exact logged.answer ..
  | @putsOff turn _ again =>
    cases turn <;> cases again
    · refine Staffed.frame h rfl ?_ ?_
      · simp [errands, turns, putOff, List.countP_cons, Turn.isErrand, Hand.errand]
        omega
      · simp [turns, putOff, Turn.isPlace]
    · refine Staffed.frame h rfl ?_ ?_
      · simp [errands, turns, putOff, List.countP_cons, Turn.isErrand, Hand.errand]
        omega
      · simp [turns, putOff, Turn.isPlace]
  | enters share free => exact Staffed.enters h share free
  | waits held =>
    refine h.frame rfl ?_ rfl
    simp [errands, turns, List.countP_cons, Hand.errand, Turn.isErrand, Gate.ticket?, held]
    omega
  | rests queue =>
    have one : m.errands + 1 = 1 := h.busy.trans (if_pos (Staffed.is_busy h))
    exact ⟨Nat.succ.inj one, fun _ => queue, by simp, h.full, h.capacity⟩
  | takes queue => exact Staffed.takes h queue
  | places asks placed =>
    rcases asks with rfl | ⟨rfl, -⟩
    · exact Staffed.places h (Nat.le_refl 1) placed
    · exact Staffed.places h (Nat.zero_le 1) placed
  | lines alive full =>
    refine ⟨h.busy, h.idle, fun gone => absurd ?_ alive, fun _ => ?_, h.capacity⟩
    · simpa [Channel.isClosed] using gone
    · simpa [hasRoom, turns, Hand.room] using full
  | runs needs held | publishes held => exact (Staffed.within h held ..).putOffProceed _
  | blocks needs held => exact Staffed.within h held ..
  | leaves stage' permits held => exact (Staffed.within h held ..).passOn rfl
  | closes closes => exact Staffed.closes h closes
  | @arranges _ t state held work =>
    have inside : t ∈ m.tickets := by simp [tickets, Gate.ticket?_eq_some.2 ⟨.admitted, held⟩]
    have known := tracked.known t (List.mem_append_right _ inside)
    have own := tracked.owned t (mem_of_ticketOf known) state work
    have left := (Staffed.within h held .admitted
      { m.dispatcher with status := m.status.arrange state } m.permits
      [.logged (.arranged state), .arranged t.call (m.status.arrange state)]).passOn rfl
    rwa [Ticket.errand_of_ne (by simp [own])] at left
  | forces => exact Staffed.answer h ..
  | opens _ own =>
    rw [Hand.errand, Ticket.errand_of_ne own]
    exact h.frame rfl rfl rfl
  | comes =>
    refine h.frame rfl ?_ ?_
    · simp [errands, turns, wake, List.countP_cons, Turn.isErrand, Hand.errand, Ticket.errand]
      omega
    · simp [turns, wake, Turn.isPlace]
  | rouses =>
    refine h.frame rfl ?_ ?_
    · simp [errands, turns, wake, Turn.isErrand, Hand.errand]
    · simp [turns, wake, Turn.isPlace]
  | handsOn suspended waits inside own =>
    have left := Staffed.passOn h inside
    rwa [Ticket.errand_of_ne (by simp [own])] at left
  | withdraws => exact Staffed.withdraws h _
  | asks | releases | givesUp | clearHistory | clearEvents | refusedFrame =>
    exact h.frame rfl rfl rfl

theorem Midway.staffed {d : Dispatcher} {capacity : Nat} (h : Midway d capacity hand m) :
    Staffed hand.errand hand.room m := by
  induction h with
  | start =>
    have room : 0 < max capacity 1 := Nat.lt_of_lt_of_le Nat.zero_lt_one (Nat.le_max_right ..)
    exact ⟨rfl, fun _ => rfl, nofun, fun line => absurd rfl line, room⟩
  | act before act ih => exact ih.act before.tracked act

theorem Reachable.staffed {d : Dispatcher} {capacity : Nat} (h : Reachable d capacity m) :
    Staffed 0 0 m := h.midway.staffed

end Machine

end Lifecycle
