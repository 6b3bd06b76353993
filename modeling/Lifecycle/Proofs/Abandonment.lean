import Lifecycle.Proofs.Account
import Lifecycle.Proofs.Admission
import Lifecycle.Proofs.Growth

/-! Giving up a call of one's own is atomic. Whether it waits at the gate or is blocked inside its
handler, nothing was or ever will be published or recorded for it, and all that others notice is
that the gate is handed on. -/

namespace Lifecycle

/-- What a note says of how the call found the published status, if it says anything about that. -/
def Note.finds (call : Nat) (s : Status) : Note → Prop
  | .ran c context _ => c = call → context.state = s.state
  | .committed c _ result status => c = call → ∃ decision : Decision,
    result = decision.result result.command s.state ∧ status = decision.status result.command s
  | .arranged c status => c = call → status = s.arrange status.state
  | _ => True

theorem Lawful.finds {d : Dispatcher} {before since : List Note} {call : Nat} {b : Standing}
    (h : Lawful d (before ++ .admitted call :: since) b) :
    ∀ n ∈ before ++ .admitted call :: since, n.finds call (statusAfter d.status before) := by
  intro n mem
  obtain ⟨k, l, same⟩ := List.append_of_mem mem
  obtain ⟨a, c, now, next, -⟩ := at_note (same ▸ h)
  have follows := next
  cases next with
  | aside silent => cases n <;> trivial
  | @run s t =>
    rintro rfl
    exact congrArg Status.state (h.found same now rfl rfl)
  | refuse | decide =>
    rintro rfl
    have status := now.status_eq.symm.trans (h.found same now rfl rfl)
    obtain ⟨_, command, _, decision, -, -, -, -, -, result, published, -⟩ := now.decision follows
    rw [status] at result published
    rw [result, published, Decision.command_result]
    exact ⟨decision, rfl, rfl⟩
  | arrange =>
    rintro rfl
    have status := h.found same now rfl rfl
    simp only at status
    subst status
    rfl
  | _ => trivial

namespace Machine

variable {d : Dispatcher} {capacity : Nat} {m m' : Machine} {t : Ticket}

theorem Tracked.ticketOf_of_lt {out all : List Ticket} (h : Tracked out all m) {call : Nat}
    (less : call < m.calls.length) : ∃ t, ticketOf m.journal call = some t := by
  obtain ⟨t, mem, same⟩ := h.opened call less
  refine Option.isSome_iff_exists.1 (List.find?_isSome.2 ⟨t, ?_, by simpa using same⟩)
  exact List.mem_filterMap.2 ⟨_, mem, rfl⟩

theorem Tracked.mem_of_own {out all : List Ticket} (h : Tracked out all m)
    (known : ticketOf m.journal t.call = some t) (own : t.seat = .caller)
    (waits : m.isPending t.call) : t ∈ all := by
  refine (h.waits t (mem_of_ticketOf known) waits).resolve_right fun report => ?_
  obtain ⟨⟨u, known', seat⟩, -⟩ := h.reported t.call report
  cases known.symm.trans known'
  rw [own] at seat
  cases seat

theorem Reachable.pending_silent (h : Reachable d capacity m) (suspended : m.Suspended t.call)
    (known : ticketOf m.journal t.call = some t) (own : t.seat = .caller)
    (waits : m.isPending t.call) : ∀ n ∈ m.journal, n.contributor? ≠ some t.call := by
  have lawful := h.lawful
  rcases List.mem_append.1 (h.orderly.mem_of_own known own waits) with mem | mem
  · have inside : m.gate.ticket? = some t := by simpa using mem
    refine lawful.undecided_silent (m.gate.phase_ticket?.trans inside) ?_
    obtain ⟨stage, held⟩ := Gate.ticket?_eq_some.1 inside
    obtain ⟨⟨r, running, -⟩, -⟩ := h.attended.blocked held (suspended.stuck inside rfl own)
    cases running
    rw [Gate.phase, held]
    rfl
  · exact fun n seen of => h.orderly.fresh t mem (lawful.admitted_of_contributor seen of)

theorem calls_abandon {call : Nat} (waits : m.isPending call) :
    (m.abandon call).calls = m.calls.set call .abandoned := by
  by_cases held : m.gate.heldBy call
  · obtain ⟨t, inside, rfl, own⟩ := Gate.heldBy_iff.1 held
    rw [abandon_of_held waits inside own, setProgress, calls_passOn]
  · rw [abandon_of_not_held waits held]

theorem Tracked.ticketOf_of_append {out all : List Ticket} (h : Tracked out all m)
    {news : List Note} (known : ticketOf (m.journal ++ news) t.call = some t)
    (less : t.call < m.calls.length) : ticketOf m.journal t.call = some t := by
  obtain ⟨u, before⟩ := h.ticketOf_of_lt less
  rwa [Lifecycle.ticketOf_of_append news before, ← before] at known

/-- Nothing was published or recorded for work of their own that callers gave up. -/
def Mute (m : Machine) : Prop :=
  ∀ t, ticketOf m.journal t.call = some t → t.seat = .caller →
    m.calls[t.call]? = some .abandoned → ∀ n ∈ m.journal, n.contributor? ≠ some t.call

theorem Mute.later (h : m.Mute) (orderly : m.Orderly)
    (later : Later m.byHolder Progress.isAnswered m m') : m'.Mute := by
  intro t known own gave
  have before := later.abandoned gave
  obtain ⟨news, same, byHolder⟩ := later.journal
  have inRange := (List.getElem?_eq_some_iff.1 before).1
  have known := orderly.ticketOf_of_append (same ▸ known) inRange
  rw [same]
  refine List.forall_mem_append.2 ⟨h t known own before, fun n mem of => ?_⟩
  obtain ⟨u, inside, call⟩ := Option.map_eq_some_iff.1 (byHolder n mem _ of)
  have mem : u ∈ m.tickets := by simp [tickets, inside]
  have known' := orderly.known u mem
  rw [call, known] at known'
  cases known'
  rcases orderly.unanswered t mem with waits | ⟨other, -⟩
  · rw [isPending_iff, before] at waits
    cases waits
  · exact other own

theorem Mute.abandon (mute : m.Mute) (h : Reachable d capacity m) {call : Nat}
    (suspended : m.Suspended call) : (m.abandon call).Mute := by
  by_cases waits : m.isPending call
  · intro t known own gave
    obtain ⟨news, same, none⟩ := (Later.givesUp (m.givesUp_abandon call)).journal
    rw [calls_abandon waits] at gave
    have less : t.call < m.calls.length := by simpa using (List.getElem?_eq_some_iff.1 gave).1
    have known := h.orderly.ticketOf_of_append (same ▸ known) less
    rw [same]
    refine List.forall_mem_append.2 ⟨?_, fun n mem of => by simp [none n mem] at of⟩
    by_cases this : call = t.call
    · rw [this] at suspended waits
      exact h.pending_silent suspended known own waits
    · rw [List.getElem?_set_ne this] at gave
      exact mute t known own gave
  · rwa [abandon_of_not_pending waits]

theorem Reachable.mute (h : Reachable d capacity m) : m.Mute := by
  induction h with
  | refl => simp [Mute, ticketOf, start]
  | @tail m m' reaches change ih =>
    have orderly := Reachable.orderly reaches
    cases change with
    | turn => exact ih.later orderly (.step m)
    | move v timely =>
      cases v with
      | abandon call => exact ih.abandon reaches timely
      | _ => exact ih.later orderly (.quietly (.submit m rfl))
    | clearHistory | clearEvents => exact ih.later orderly (.of_same rfl rfl)
    | refusedFrame => exact ih.later orderly (.quietly (.log ..))

/-- The ticket of a caller that can do nothing but wait for work of its own is at the gate: it waits
there, or its handler is blocked. -/
theorem Reachable.waits_or_blocks (h : Reachable d capacity m) (suspended : m.Suspended t.call)
    (known : ticketOf m.journal t.call = some t) (own : t.seat = .caller)
    (waits : m.isPending t.call) :
    t ∈ m.gate.waiting ∨ m.gate.ticket? = some t ∧ m.Blocks t.call := by
  have mem := h.orderly.mem_of_own known own waits
  simp only [tickets, entrants, List.mem_append, Option.mem_toList] at mem
  rcases mem with inside | (carried | mem) | posted
  · obtain ⟨stage, held⟩ := Gate.ticket?_eq_some.1 inside
    exact .inr ⟨inside, (h.blocks_of_held held (suspended.stuck inside rfl own)).1⟩
  · exact absurd own (suspended.other carried rfl)
  · exact .inl mem
  · obtain ⟨p, -, rfl⟩ := List.mem_map.1 posted
    cases own

theorem Reachable.heldBy_iff (h : Reachable d capacity m)
    (known : ticketOf m.journal t.call = some t) (own : t.seat = .caller) :
    m.gate.heldBy t.call ↔ m.gate.ticket? = some t := by
  rw [Gate.heldBy_iff]
  constructor
  · rintro ⟨u, inside, same, -⟩
    have known' := h.orderly.known u (by simp [tickets, inside])
    rw [same, known] at known'
    rw [inside, Option.some.inj known']
  · exact fun inside => ⟨t, inside, rfl, own⟩

theorem Reachable.withdraw_channel (h : Reachable d capacity m)
    (known : ticketOf m.journal t.call = some t) (own : t.seat = .caller) :
    m.channel.withdraw t.call = m.channel := by
  have others : ∀ p ∈ m.channel.waiting, !(p.call == t.call) := by
    intro p mem
    have posted : p.ticket ∈ m.tickets := by
      simp only [tickets, entrants, List.mem_append]
      exact .inr (.inr (List.mem_map_of_mem (List.mem_append_right _ mem)))
    rw [Bool.not_eq_true', beq_eq_false_iff_ne]
    intro same
    have known' := h.orderly.known p.ticket posted
    rw [show p.ticket.call = t.call from same, known] at known'
    cases known'
    cases own
  rw [Channel.withdraw, List.filter_eq_self.2 others]

section own

variable (own : t.seat = .caller) (waits : m.isPending t.call)
include own waits

theorem Reachable.gives_up (h : Reachable d capacity m) (suspended : m.Suspended t.call)
    (known : ticketOf m.journal t.call = some t) {m' : Machine}
    (later : Reaches (m.submit (.abandon t.call)) m') :
    m'.calls[t.call]? = some .abandoned ∧ ∀ n ∈ m'.journal, n.contributor? ≠ some t.call := by
  have reaches : Reaches m m' := .head (.move (.abandon t.call) suspended) later
  have inRange := (List.getElem?_eq_some_iff.1 (isPending_iff.1 waits)).1
  have gave : (m.submit (.abandon t.call)).calls[t.call]? = some .abandoned := by
    rw [submit, calls_abandon waits, List.getElem?_set_self inRange]
  have still := later.later.settled gave (by simp)
  obtain ⟨news, same, -⟩ := (Reaches.later reaches).journal
  have known := same ▸ ticketOf_of_append news known
  exact ⟨still, Reachable.mute (h.trans reaches) t known own still⟩

theorem Reachable.hands_on (h : Reachable d capacity m) (suspended : m.Suspended t.call)
    (inside : m.gate.ticket? = some t) {w : Ticket} {ws : List Ticket}
    (line : m.gate.waiting = w :: ws) {m' : Machine}
    (later : Reaches (m.submit (.abandon t.call)) m') :
    m.journal ++ [.left t.call, .admitted w.call] <+: m'.journal ∧
      ∀ n ∈ m'.journal, n.finds w.call m.status := by
  obtain ⟨news, same, -⟩ := (Reaches.later later).journal
  rw [submit, abandon_of_held waits inside own, passOn_of_cons inside line] at same
  have split : m'.journal = (m.journal ++ [.left t.call]) ++ .admitted w.call :: news := by
    simpa [setProgress] using same
  have reaches : Reaches m m' := .head (.move (.abandon t.call) suspended) later
  have finds := Lawful.finds (split ▸ Reachable.lawful (h.trans reaches))
  have found : m.status = statusAfter d.status m.journal := h.lawful.status_eq
  rw [split, found]
  exact ⟨⟨news, by simp⟩, by simpa [statusAfter_snoc, Note.status?] using finds⟩

theorem submit_abandon_of_alone (inside : m.gate.ticket? = some t) (alone : m.gate.waiting = []) :
    m.submit (.abandon t.call) = { m with
      calls := m.calls.set t.call .abandoned
      gate := {}
      journal := m.journal ++ [.left t.call] } := by
  rw [submit, abandon_of_held waits inside own, passOn_of_nil inside alone]
  rfl

theorem Reachable.submit_abandon_of_outside (h : Reachable d capacity m)
    (known : ticketOf m.journal t.call = some t) (outside : m.gate.ticket? ≠ some t) :
    m.submit (.abandon t.call) = { m with
      calls := m.calls.set t.call .abandoned
      gate := m.gate.withdraw t.call } := by
  have left := abandon_of_not_held waits fun held => outside ((h.heldBy_iff known own).1 held)
  rw [submit, left, h.withdraw_channel known own]

end own

/-- Giving up work of one's own leaves no trace of it, neither before nor ever after. If it held the
gate the first waiter gets in at once and finds the status that was published last. Else, and if
nobody waited, just the call and its place at the gate are gone and all else is as it was; if
nothing could go on before, nothing can now. -/
theorem abandonment_atomic (h : Reachable d capacity m) (suspended : m.Suspended t.call)
    (known : ticketOf m.journal t.call = some t) (own : t.seat = .caller)
    (waits : m.isPending t.call) :
    (t ∈ m.gate.waiting ∨ m.gate.ticket? = some t ∧ m.Blocks t.call) ∧
    (∀ m', Reaches (m.submit (.abandon t.call)) m' → m'.calls[t.call]? = some .abandoned ∧
      ∀ n ∈ m'.journal, n.contributor? ≠ some t.call) ∧
    (m.gate.ticket? = some t → ∀ w ws, m.gate.waiting = w :: ws →
      m.status = statusAfter d.status m.journal ∧
      ∀ m', Reaches (m.submit (.abandon t.call)) m' →
        m.journal ++ [.left t.call, .admitted w.call] <+: m'.journal ∧
        ∀ n ∈ m'.journal, n.finds w.call m.status) ∧
    (m.gate.ticket? = some t → m.gate.waiting = [] →
      m.submit (.abandon t.call) = { m with
        calls := m.calls.set t.call .abandoned
        gate := {}
        journal := m.journal ++ [.left t.call] }) ∧
    (m.gate.ticket? ≠ some t →
      m.submit (.abandon t.call) = { m with
        calls := m.calls.set t.call .abandoned
        gate := m.gate.withdraw t.call }) ∧
    (m.isQuiet → (m.gate.ticket? = some t → m.gate.waiting = []) →
      m.move (.abandon t.call) = m.submit (.abandon t.call)) := by
  refine ⟨h.waits_or_blocks suspended known own waits, fun m' later => ?_,
    fun inside w ws line => ?_, fun inside alone => ?_, fun outside => ?_, fun quiet alone => ?_⟩
  · exact h.gives_up own waits suspended known later
  · refine ⟨h.lawful.status_eq, fun m' later => ?_⟩
    exact h.hands_on own waits suspended inside line later
  · exact submit_abandon_of_alone own waits inside alone
  · exact h.submit_abandon_of_outside own waits known outside
  · refine steps_of_quiet ?_ _
    by_cases inside : m.gate.ticket? = some t
    · rw [submit_abandon_of_alone own waits inside (alone inside)]
      exact quiet
    · rw [h.submit_abandon_of_outside own waits known inside]
      exact quiet

theorem abandonment_atomic_of_blocked_start :
    ∃ (m : Machine) (t w : Ticket), m.isPending t.call ∧ inHandler m.journal = [t.call] ∧
      (∀ m', Reaches (m.submit (.abandon t.call)) m' →
        ∀ n ∈ m'.journal, n.contributor? ≠ some t.call) ∧
      m.journal ++ [.left t.call, .admitted w.call] <+: (m.move (.abandon t.call)).journal := by
  have reachable := reachable_run .patient 1
    [.dispatch .attached .start .empty, .dispatch .queued .start .empty, .arrange .error]
  have suspended := suspended_of_quiet (isQuiet_run .patient 1
    [.dispatch .attached .start .empty, .dispatch .queued .start .empty, .arrange .error]) 0
  obtain ⟨-, traceless, handsOn, -⟩ :=
    abandonment_atomic (t := ⟨0, .caller, .dispatch .start .empty⟩) reachable suspended rfl rfl rfl
  obtain ⟨-, next⟩ := handsOn rfl ⟨1, .worker, .dispatch .start .empty⟩ _ rfl
  have promptly := (next _ (reaches_settle _)).1
  refine ⟨_, _, _, ?_, ?_, fun m' later => (traceless m' later).2, promptly⟩ <;> rfl

end Machine

end Lifecycle
