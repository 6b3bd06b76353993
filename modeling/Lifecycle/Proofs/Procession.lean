import Lifecycle.Proofs.Account
import Lifecycle.Proofs.Approach
import Lifecycle.Proofs.Course
import Lifecycle.Proofs.Unmoved

/-! Every act of a machine is one of those that can happen on the way to its gate: so those who come
to the gate by themselves keep their order there, whatever callers, handlers and records do. -/

namespace Lifecycle

def Turn.comer? : Turn → Option Ticket
  | .arrive t => if t.isSent then none else some t
  | _ => none

theorem Turn.comer?_of_own {t : Ticket} (own : t.isSent = false) : comer? (.arrive t) = some t := by
  simp [comer?, own]

theorem Turn.comer?_of_sent {t : Ticket} (sent : t.isSent) : comer? (.arrive t) = none := by
  simp [comer?, sent]

theorem Turn.comer?_of_ticket? {turn : Turn} (other : turn.ticket? = none) :
    turn.comer? = none := by
  cases turn <;> first | rfl | cases other

theorem Turn.comer?_of_canWait {turn : Turn} (waits : turn.canWait) : turn.comer? = none := by
  cases turn with
  | arrive t => exact comer?_of_sent waits
  | _ => rfl

theorem Note.calm_of_isInner {n : Note} (h : n.isInner) : n.ticket? = none ∧ n.left? = none := by
  cases n <;> first | exact ⟨rfl, rfl⟩ | cases h

/-- Whoever is about to get to the gate is the first of those who come. -/
def Hand.first? : Hand → Option Ticket
  | .turn next => next.comer?
  | _ => none

/-- Whoever sets out just now is the last of them. -/
def Hand.last? : Hand → Option Ticket
  | .comer t => Turn.comer? (.arrive t)
  | _ => none

namespace Machine

def row (m : Machine) : List Ticket := m.gate.ticket?.toList ++ m.gate.waiting

def approach (m : Machine) : Approach where
  calls := m.calls.length
  opened := m.journal.filterMap Note.ticket?
  left := m.journal.filterMap Note.left?
  row := m.row
  coming := m.turns.filterMap Turn.comer?

def approachIn (hand : Hand) (m : Machine) : Approach :=
  { m.approach with coming := hand.first?.toList ++ (m.approach.coming ++ hand.last?.toList) }

variable {m m' : Machine} {hand hand' : Hand} {t : Ticket}

theorem approachIn_eq (first : hand.first? = none) (last : hand.last? = none) :
    approachIn hand m = m.approach := by
  simp [approachIn, first, last]

theorem approachIn_empty (m : Machine) : approachIn .empty m = m.approach :=
  approachIn_eq rfl rfl

theorem Unmoved.approach_eq (h : Unmoved m m') : m'.approach = m.approach := by
  have opened := h.filterMap_journal fun _ inner => (Note.calm_of_isInner inner).1
  have left := h.filterMap_journal fun _ inner => (Note.calm_of_isInner inner).2
  have coming := h.filterMap_turns fun _ => Turn.comer?_of_ticket?
  simp only [approach, row, h.inside, h.waiting, h.calls, opened, left, coming]

theorem approach_passOn (inside : m.gate.ticket? = some t) : m.passOn.approach =
    { m.approach with left := m.approach.left ++ [t.call], row := m.gate.waiting } := by
  cases line : m.gate.waiting with
  | nil =>
    rw [passOn_of_nil inside line]
    simp [approach, row, turns, Note.ticket?, Note.left?, List.filterMap_cons]
  | cons u us =>
    rw [passOn_of_cons inside line]
    simp [approach, row, turns, List.filterMap_cons, Note.ticket?, Note.left?, Turn.comer?]

theorem approach_openCall (m : Machine) (t : Ticket) : (m.openCall t).approach = { m.approach with
    calls := m.approach.calls + 1, opened := m.approach.opened ++ [t] } := by
  simp [approach, row, turns, openCall, note, Note.ticket?, Note.left?]

theorem Places.approach_eq {p : Post} (places : Places m p m') : m'.approach = m.approach := by
  cases places with
  | refused => exact (Unmoved.answer ..).approach_eq
  | rouses =>
    simp [approach, row, turns, List.filterMap_cons, Turn.comer?, Note.ticket?, Note.left?]
  | queues => simp [approach, row, turns, Note.ticket?, Note.left?]

/-- Whoever gets to the gate comes to the end of the row, for at a free gate nobody waits. -/
theorem approach_arrive (h : m.Attended) (t : Ticket) (share : Nat) :
    (m.arrive t (share + 1)).approach = { m.approach with row := m.approach.row ++ [t] } := by
  cases held : m.gate.holder with
  | none =>
    have nobody := h.line (by simp [Gate.isFree, held])
    rw [arrive_of_free held]
    simp [approach, row, Gate.ticket?, held, nobody, turns, List.filterMap_cons, Turn.comer?,
      Note.ticket?, Note.left?]
  | some holding =>
    rw [arrive_of_held held]
    simp [approach, row, Gate.ticket?, held, turns]

variable {d : Dispatcher} {capacity : Nat}

theorem Midway.gets_to_gate (before : Midway d capacity (.turn (.arrive t)) m)
    (there : m'.approach = { m.approach with row := m.approach.row ++ [t] }) :
    (approachIn (.turn (.arrive t)) m).Advances [] m'.approach := by
  rw [there]
  cases sent : t.isSent with
  | true =>
    have other : approachIn (.turn (.arrive t)) m = m.approach := by
      simp [approachIn, Hand.first?, Hand.last?, Turn.comer?_of_sent sent]
    have known := mem_of_ticketOf (before.tracked.known t (by simp [Hand.ticket?, Turn.ticket?]))
    rw [other]
    exact .brings t sent (List.mem_filterMap.2 ⟨_, known, rfl⟩)
  | false =>
    have first : (approachIn (.turn (.arrive t)) m).coming = t :: m.approach.coming := by
      simp [approachIn, Hand.first?, Hand.last?, Turn.comer?_of_own sent]
    exact .joins t _ first

theorem Midway.advances (before : Midway d capacity hand m) (act : Act m hand hand' m') :
    ∃ out, (approachIn hand m).Advances out (approachIn hand' m') := by
  have still {x y : Approach} (same : y = x) : ∃ out, x.Advances out y := ⟨[], same ▸ .still⟩
  -- Nobody who comes by itself is put off: whoever sets out is behind all that come.
  have prompt : m.deferred.filterMap Turn.comer? = [] :=
    List.filterMap_eq_nil_iff.2 fun turn mem => Turn.comer?_of_canWait (before.late turn mem)
  have unmoved (inner : hand.isInner) (done : hand' = .empty) (first : hand.first? = none)
      (last : hand.last? = none) :
      ∃ out, (approachIn hand m).Advances out (approachIn hand' m') := by
    subst done
    rw [approachIn_eq first last, approachIn_eq rfl rfl]
    exact still (act.unmoved inner rfl).approach_eq
  have leaving {t : Ticket} {why : Leave} (left : hand' = .left t why) (first : hand.first? = none)
      (last : hand.last? = none) :
      ∃ out, (approachIn hand m).Advances out (approachIn hand' m') := by
    obtain ⟨inside, w, stays, -, still, rfl⟩ := act.leaving left
    have row : m.approach.row = t :: m.gate.waiting := by simp [approach, Machine.row, inside]
    subst left
    rw [approachIn_eq first last, approachIn_eq rfl rfl, approach_passOn still, stays.approach_eq,
      stays.waiting]
    exact ⟨[t], .leaves t _ row⟩
  cases act with
  | @picks turn ready deferred next =>
    refine still ?_
    simp only [approachIn, approach, next]
    cases comes : turn.comer? <;> simp [row, Hand.first?, Hand.last?, comes, turns]
  | putsOff again =>
    cases again with
    | arrive sent =>
      have other := Turn.comer?_of_sent (beq_iff_eq.2 sent)
      refine still ?_
      simp [approachIn, approach, row, turns, putOff, Hand.first?, Hand.last?, other]
    | collect => exact unmoved rfl rfl rfl rfl
  | @enters t share free =>
    have there := approach_arrive (before.attended.now rfl) t share
    rw [arrive_of_free free] at there
    rw [approachIn_empty]
    exact ⟨[], before.gets_to_gate there⟩
  | @waits t _ held =>
    have there := approach_arrive (before.attended.now rfl) t 0
    rw [arrive_of_held held] at there
    rw [approachIn_empty]
    exact ⟨[], before.gets_to_gate there⟩
  | @takes _ p ps =>
    have other : Hand.first? (.turn (.arrive p.ticket)) = none :=
      Turn.comer?_of_sent (t := p.ticket) rfl
    rw [approachIn_eq rfl rfl, approachIn_eq other rfl]
    refine still ?_
    cases m.channel.waiting <;>
      simp [approach, row, turns, Turn.comer?, Note.ticket?, Note.left?, List.filterMap_cons]
  | places asks places =>
    rcases asks with rfl | ⟨rfl, -⟩ <;> rw [approachIn_eq rfl rfl, approachIn_eq rfl rfl] <;>
      exact still places.approach_eq
  | @opens v t opening own =>
    have own : t.isSent = false := by simpa [Ticket.isSent] using own
    have comes := Approach.Advances.comes (x := m.approach) t own (ticket?_eq_some opening).1
    refine ⟨[], ?_⟩
    rw [approachIn_eq rfl rfl]
    simpa [approachIn, approach_openCall, Hand.first?, Hand.last?, Turn.comer?_of_own own]
      using comes
  | @asks v p opening =>
    have sends := Approach.Advances.sends (x := m.approach) p.ticket rfl (ticket?_eq_some opening).1
    refine ⟨[], ?_⟩
    rw [approachIn_eq rfl rfl, approachIn_eq rfl rfl, approach_openCall]
    exact sends
  | @comes t =>
    refine still ?_
    cases comes : Turn.comer? (.arrive t) <;>
      simp [approachIn, approach, row, turns, wake, prompt, Hand.first?, Hand.last?, comes]
  | @withdraws call =>
    have fewer : (m.gate.ticket?.toList ++ (m.gate.withdraw call).waiting).Sublist m.row :=
      (List.Sublist.refl _).append List.filter_sublist
    have withdraws := Approach.Advances.withdraws (x := m.approach) fewer
    refine ⟨[], ?_⟩
    rw [approachIn_eq rfl rfl, approachIn_eq rfl rfl]
    simpa [approach, row, turns, Gate.ticket?] using withdraws
  | leaves | arranges | handsOn => exact leaving rfl rfl rfl
  | steps | makes | settled | lines => exact still rfl
  | _ => exact unmoved rfl rfl rfl rfl

theorem Midway.in_order (h : Midway d capacity hand m) :
    ∃ gone, (approachIn hand m).Sound gone := by
  induction h with
  | start => exact ⟨[], rfl, nofun, nofun, .nil, rfl⟩
  | act before act ih =>
    obtain ⟨gone, sound⟩ := ih
    obtain ⟨out, advances⟩ := before.advances act
    exact ⟨gone ++ out, sound.advances advances⟩

theorem Reachable.in_order (h : Reachable d capacity m) : ∃ gone, m.approach.Sound gone := by
  obtain ⟨gone, sound⟩ := h.midway.in_order
  exact ⟨gone, approachIn_empty m ▸ sound⟩

end Machine

end Lifecycle
