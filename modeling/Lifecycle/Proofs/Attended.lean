import Lifecycle.Proofs.Tickets
import Lifecycle.Proofs.Turns

/-! Nobody waits for a free gate, and whoever holds it goes on or lacks permits that are not
there. -/

namespace Lifecycle

def Hand.isProceed : Hand → Bool
  | .turn next => next.isProceed
  | _ => false

namespace Machine

structure Attended (m : Machine) : Prop where
  line : m.gate.isFree → m.gate.waiting = []
  holder : ∀ h, m.gate.holder = some h → (∃ share, .proceed share ∈ m.turns) ∨
    (∃ r, h.stage = .running r ∧ 0 < r.permits) ∧ m.permits = 0

variable {m m' : Machine} {hand hand' : Hand} {t : Ticket}

namespace Attended

theorem frame (h : m.Attended) (gate : m'.gate = m.gate) (permits : m'.permits = m.permits)
    (turns : ∀ share, .proceed share ∈ m.turns → .proceed share ∈ m'.turns) : m'.Attended where
  line free := by
    rw [gate] at free ⊢
    exact h.line free
  holder holding held := by
    rw [gate] at held
    rw [permits]
    refine (h.holder holding held).imp_left ?_
    exact fun ⟨share, mem⟩ => ⟨share, turns share mem⟩

theorem passOn (inside : m.gate.ticket? = some t) : m.passOn.Attended := by
  cases line : m.gate.waiting with
  | nil =>
    rw [passOn_of_nil inside line]
    exact ⟨fun _ => rfl, fun _ held => by cases held⟩
  | cons u us =>
    rw [passOn_of_cons inside line]
    refine ⟨fun free => absurd free Bool.false_ne_true, fun _ _ => .inl ⟨fairShare - 1, ?_⟩⟩
    simp [turns]

theorem answer (h : m.Attended) (call : Nat) (a : Answer) : (m.answer call a).Attended := by
  obtain ⟨gate, permits, -⟩ := m.answer_frame call a
  exact h.frame gate permits fun _ mem => by rwa [turns_answer]

theorem places (h : m.Attended) {p : Post} (places : Places m p m') : m'.Attended := by
  cases places with
  | refused => exact h.answer ..
  | rouses => exact h.frame rfl rfl fun _ mem => mem_turns_wake (.collect fairShare) mem
  | queues => exact h.frame rfl rfl fun _ mem => mem

theorem releases (h : m.Attended) {n : Nat}
    (nobody : isBlocked { m with permits := m.permits + n } = false) :
    Attended { m with permits := m.permits + n } := by
  refine ⟨h.line, fun holding held => .inl ?_⟩
  rcases h.holder holding held with goes | ⟨⟨r, running, -⟩, -⟩
  · exact goes
  · have blocked : m.gate.blocked? = some r := by
      simp [Gate.blocked?, show m.gate.holder = _ from held, running]
    have goes : (m.ready ++ m.deferred).any Turn.isProceed := by
      rw [isBlocked, blocked] at nobody
      simpa only [Option.isSome_some, Bool.true_and, Bool.not_eq_false'] using nobody
    obtain ⟨turn, mem, proceeds⟩ := List.any_eq_true.1 goes
    cases turn with
    | proceed share => exact ⟨share, mem⟩
    | _ => cases proceeds

/-- A holder of the gate that cannot go on lacks permits. -/
theorem blocked (h : m.Attended) {holding : Holding} (held : m.gate.holder = some holding)
    (stuck : ∀ share, .proceed share ∉ m.turns) :
    (∃ r, holding.stage = .running r ∧ 0 < r.permits) ∧ m.permits = 0 :=
  (h.holder holding held).resolve_left fun ⟨share, mem⟩ => stuck share mem

end Attended

/-- With a turn of its own in hand the holder of the gate is attended to. -/
def AttendedIn : Hand → Machine → Prop
  | .turn (.proceed _), m => m.gate.isFree → m.gate.waiting = []
  | _, m => m.Attended

theorem AttendedIn.now (h : AttendedIn hand m) (other : hand.isProceed = false) : m.Attended := by
  unfold AttendedIn at h
  split at h
  · cases other
  · exact h

theorem AttendedIn.act (h : AttendedIn hand m) (act : Act m hand hand' m') :
    AttendedIn hand' m' := by
  have now := h.now
  cases act with
  | @picks turn ready deferred next =>
    cases turn with
    | proceed => exact (now rfl).line
    | arrive | collect | place | report =>
      refine (now rfl).frame rfl rfl fun share mem => ?_
      rw [next] at mem
      exact (List.mem_cons.1 mem).resolve_left (by simp)
  | @reports call command payload ready deferred next =>
    have logged : Attended (log { m with ready, deferred } [.aborted command]) := by
      refine (now rfl).frame rfl rfl fun share mem => ?_
      rw [next] at mem
      exact (List.mem_cons.1 mem).resolve_left (by simp)
    exact logged.answer ..
  | @putsOff turn _ again =>
    refine (now ?_).frame rfl rfl fun _ => mem_turns_putOff _
    cases again <;> rfl
  | enters share =>
    exact ⟨fun free => absurd free Bool.false_ne_true, fun _ _ => .inl ⟨share, by simp [turns]⟩⟩
  | waits held => exact ⟨fun free => by simp [Gate.isFree, held] at free, (now rfl).holder⟩
  | takes =>
    refine (now rfl).frame rfl rfl fun share mem => ?_
    simp only [turns, List.mem_append] at mem ⊢
    exact mem.imp_left .inl
  | places asks places => rcases asks with rfl | ⟨rfl, -⟩ <;> exact (now rfl).places places
  | stays free => exact ⟨h, fun _ held => by cases free.symm.trans held⟩
  | runs | publishes =>
    exact ⟨fun free => absurd free Bool.false_ne_true, fun _ _ =>
      .inl ⟨fairShare, by simp [turns, putOff]⟩⟩
  | blocks needs held begins unmet =>
    refine ⟨fun free => absurd free Bool.false_ne_true, fun h same => .inr ⟨?_, rfl⟩⟩
    cases same
    exact ⟨_, rfl, unmet⟩
  | leaves | arranges => exact Attended.passOn rfl
  | closes closes =>
    exact (now rfl).frame closes.frame.1 closes.frame.2.1 fun _ => closes.mem_turns
  | forces => exact (now rfl).answer ..
  | comes => exact (now rfl).frame rfl rfl fun _ => mem_turns_wake _
  | releases nobody => exact (now rfl).releases nobody
  | rouses => exact ⟨(now rfl).line, fun _ _ => .inl ⟨fairShare, by simp [turns, wake]⟩⟩
  | handsOn _ _ inside => exact Attended.passOn inside
  | withdraws =>
    refine ⟨fun free => ?_, (now rfl).holder⟩
    change m.gate.waiting.filter _ = []
    rw [(now rfl).line free, List.filter_nil]
  | _ => exact (now rfl).frame rfl rfl fun _ mem => mem

theorem Midway.attended {d : Dispatcher} {capacity : Nat} (h : Midway d capacity hand m) :
    AttendedIn hand m := by
  induction h with
  | start => exact ⟨fun _ => rfl, fun _ held => by cases held⟩
  | act _ act ih => exact ih.act act

theorem Reachable.attended {d : Dispatcher} {capacity : Nat} (h : Reachable d capacity m) :
    m.Attended := h.midway.attended

end Machine

end Lifecycle
