import Lifecycle.Proofs.Tableau

/-! The ways to the gate. As long as nobody gives up and nothing breaks down, a dispatch takes the
same place and comes to the same, whether its caller brings it, a task of its own does, or the
worker, if that has nothing else to do. -/

namespace Lifecycle

namespace Passage

/-- Nothing is in the channel, and nobody is before it. -/
structure Clear (x : Passage) : Prop where
  queue : x.queue = []
  waiting : x.waiting = []
  given : x.given = []

/-- Without new calls nothing comes. -/
theorem Clear.later {x y : Passage} (h : x.Clear) (sound : x.Sound) (sound' : y.Sound)
    (later : x.Later y) (calls : y.calls = x.calls) : y.Clear := by
  obtain ⟨since, entered, fresh, -⟩ := later.entered
  have nobody : x.line = [] := by simp [Passage.line, h.given, h.waiting]
  have none : since ++ y.line = [] := List.eq_nil_iff_forall_not_mem.2 fun c mem => by
    have new : x.calls ≤ c := (fresh c mem).resolve_left (by simp [nobody])
    have known : c ∈ y.entered ++ y.line := by
      rw [entered, List.append_assoc]
      exact List.mem_append_right _ mem
    have old := sound'.numbered c known
    omega
  obtain ⟨rfl, line⟩ := List.append_eq_nil_iff.1 none
  obtain ⟨given, waiting⟩ := List.append_eq_nil_iff.1 (List.map_eq_nil_iff.1 line)
  refine ⟨?_, waiting, given⟩
  by_cases gone : y.worker = .gone
  · exact (sound'.gone gone).1
  · have alive : x.worker ≠ .gone := fun dead => gone (later.gone dead).1
    have flow := congrArg List.length ((sound'.flow gone).symm.trans entered)
    rw [sound.flow alive, h.queue] at flow
    have taken := later.taken.length_le
    simp only [List.length_append, List.length_map, List.map_nil, List.length_nil] at flow
    exact List.length_eq_zero_iff.1 (by omega)

end Passage

namespace Machine

variable {d : Dispatcher} {capacity : Nat} {m m' : Machine} {t : Ticket}

/-- A configuration in which nobody has given up and nothing is in the channel. -/
structure Patient (d : Dispatcher) (capacity : Nat) (m : Machine) : Prop where
  reachable : Reachable d capacity m
  kept : ∀ call : Nat, m.calls[call]? ≠ some .abandoned
  clear : m.passage.Clear

namespace Patient

variable (h : Patient d capacity m)
include h

theorem waits (mem : t ∈ m.tickets) : m.isPending t.call :=
  (h.reachable.orderly.unanswered t mem).resolve_right fun gave => h.kept t.call gave.2

theorem step : Patient d capacity m.step where
  reachable := h.reachable.tail .turn
  kept call gave := h.kept call ((Later.step m).abandoned gave)
  clear := h.clear.later h.reachable.sound (Reachable.sound (h.reachable.tail .turn))
    (h.reachable.passage_later (.single .turn)) m.length_step

theorem settle : Patient d capacity m.settle :=
  steps_keep (fun _ h => h.step) m.work h

theorem settled (quiet : m.isQuiet) : m.tableau.settle = m.tableau := by
  have turns := isQuiet_iff_turns.1 quiet
  have nobody : m.arrivals = [] := by rw [arrivals, turns, List.filterMap_nil]
  have attended := h.reachable.attended
  cases held : m.gate.holder with
  | none =>
    have line : m.gate.waiting = [] := attended.line (by simp [Gate.isFree, held])
    refine Tableau.settle_of_empty ?_ ?_
    · simp [tableau, Gate.tableau, Gate.inside?, held]
    · simp [tableau, Gate.tableau, Gate.line, held, line, nobody]
  | some holding =>
    obtain ⟨⟨r, run, lacks⟩, none⟩ := attended.blocked held (by simp [turns])
    obtain ⟨t, stage⟩ := holding
    obtain rfl : stage = .running r := run
    have blocked : m.tableau.inside = some (t.call, r) := by
      simp [tableau, Gate.tableau, Gate.inside?, held]
    have spent : m.tableau.base.permits = 0 := by
      simpa [tableau, Gate.tableau, bare, held] using none
    exact Tableau.settle_of_blocked blocked spent lacks

variable (unbroken : d.Unbroken)
include unbroken

theorem settle_step : m.step.tableau.settle = m.tableau.settle := by
  rcases m.step_cases with ⟨-, same⟩ | ⟨turn, ready, deferred, next, -, same⟩
  · rw [same]
  have mem : turn ∈ m.turns := by simp [next]
  have picked (other : turn.visitor? = none) :
      tableau { m with ready, deferred } = m.tableau := by
    have arrivals : m.arrivals = arrivals { m with ready, deferred } := by
      rw [Machine.arrivals, next, List.filterMap_cons_none other]
      rfl
    rw [tableau, tableau, arrivals]
    rfl
  rw [same]
  cases turn with
  | arrive t =>
    have attended : Attended { m with ready, deferred } := by
      refine h.reachable.attended.frame rfl rfl fun share mem => ?_
      rw [next] at mem
      exact (List.mem_cons.1 mem).resolve_left fun same => by cases same
    have arrivals : m.arrivals = t :: arrivals { m with ready, deferred } := by
      rw [Machine.arrivals, next]
      rfl
    rw [take, fairShare, tableau_arrive attended, tableau, tableau, arrivals]
    rfl
  | proceed share =>
    rw [take, ← picked rfl]
    cases inside : m.gate.ticket? with
    | none =>
      have free : m.gate.holder = none := by simpa [Gate.ticket?] using inside
      have idle : proceed { m with ready, deferred } share = { m with ready, deferred } := by
        rw [proceed, free]
      rw [idle]
    | some t =>
      have waits : m.isPending t.call := h.waits (by simp [tickets, inside])
      exact settle_tableau_proceed (by exact waits) (by exact h.reachable.unbroken unbroken) share
        (by exact inside)
  | collect share =>
    have empty : m.channel.queue = [] := h.clear.queue
    cases share with
    | zero => rw [take, collect, tableau_putOff rfl, picked rfl]
    | succ share =>
      have idles : tableau (collect { m with ready, deferred } (share + 1)) =
          tableau { m with ready, deferred } := by
        rw [collect_of_nil (by exact empty)]
        rfl
      rw [take, idles, picked rfl]
  | place p =>
    have given : p ∈ m.passage.given := List.mem_filterMap.2 ⟨_, mem, rfl⟩
    rw [h.clear.given] at given
    cases given
  | report call command text =>
    exact absurd (h.reachable.warranted.reports _ _ _ mem).breaks (unbroken.never _)

theorem tableau_settle : m.settle.tableau = m.tableau.settle := by
  have kept : Patient d capacity m.settle ∧ m.settle.tableau.settle = m.tableau.settle := by
    refine steps_keep (P := fun n => Patient d capacity n ∧
      n.tableau.settle = m.tableau.settle) (fun n ⟨h, same⟩ => ?_) m.work ⟨h, rfl⟩
    exact ⟨h.step, (h.settle_step unbroken).trans same⟩
  rw [← kept.2, kept.1.settled (isQuiet_settle m)]

end Patient

def Sending (m : Machine) : Prop :=
  ∃ t, .opened t ∈ m.journal ∧ t.seat = .worker ∧ m.isPending t.call

structure Resting (d : Dispatcher) (capacity : Nat) (m : Machine) : Prop
    extends Patient d capacity m where
  quiet : m.isQuiet

namespace Resting

variable (h : Resting d capacity m)
include h

theorem turns_eq : m.turns = [] := isQuiet_iff_turns.1 h.quiet

/-- Nothing is published that is not recorded and told, too. -/
theorem gate_tableau (base : Machine) (arrivals : List Ticket) :
    m.gate.tableau base arrivals = ⟨base, m.gate.inside?.map fun x => (x.1.call, x.2),
      (m.gate.line ++ arrivals).map Ticket.entry⟩ := by
  cases held : m.gate.holder with
  | none => simp [Gate.tableau, held]
  | some holding =>
    obtain ⟨⟨r, run, -⟩, -⟩ := h.reachable.attended.blocked held (by simp [h.turns_eq])
    obtain ⟨t, stage⟩ := holding
    obtain rfl : stage = .running r := run
    simp [Gate.tableau, held]

theorem base_eq : m.tableau.base = m.bare := by rw [tableau, h.gate_tableau]

theorem idle (unbroken : d.Unbroken) (apart : ¬ m.Sending) : m.channel.worker = .idle := by
  cases worker : m.channel.worker with
  | idle => rfl
  | gone => exact absurd worker (h.reachable.alive unbroken)
  | busy =>
    have one := h.reachable.staffed.busy
    rw [if_pos worker, errands, h.turns_eq, List.countP_nil, Nat.add_zero, Nat.zero_add] at one
    obtain ⟨t, mem, sent⟩ := List.countP_pos_iff.1 (Nat.lt_of_lt_of_eq Nat.zero_lt_one one.symm)
    have ticket : t ∈ m.tickets := by
      simp only [tickets, entrants, List.mem_append] at mem ⊢
      exact mem.imp_right fun line => .inl (.inr line)
    have known := mem_of_ticketOf (h.reachable.orderly.known t ticket)
    exact absurd ⟨t, known, by simpa using sent, h.waits ticket⟩ apart

end Resting

end Machine

def Tableau.opened (x : Tableau) (w : Work) : Tableau where
  base := { x.base with calls := x.base.calls ++ [.pending] }
  inside := x.inside
  line := x.line ++ [(x.base.calls.length, w)]

/-- What a move changes by itself, whatever way a dispatch takes. Nobody gives up. -/
def Tableau.submit (x : Tableau) : Move → Tableau
  | .dispatch _ command args => x.opened (.dispatch command args)
  | .arrange state => x.opened (.arrange state)
  | .release n => { x with base := { x.base with permits := x.base.permits + n } }
  | .abandon _ => x

namespace Machine.Resting

variable {d : Dispatcher} {capacity : Nat} {m : Machine} {t : Ticket}
variable (h : Resting d capacity m)
include h

theorem patient_move {v : Move} (stays : v.givesUp = false) (clear : (m.submit v).passage.Clear) :
    Patient d capacity (m.submit v) where
  reachable := h.reachable.tail (.move v (timely_of_quiet h.quiet v))
  kept call gave := h.kept call ((Later.submit m stays).abandoned gave)
  clear := clear

theorem tableau_comes (new : t.call = m.calls.length) :
    ((m.openCall t).wake (.arrive t)).tableau = m.tableau.opened t.work ∧
      ((m.openCall t).wake (.arrive t)).passage.Clear := by
  obtain ⟨ready, deferred⟩ := isQuiet_iff.1 h.quiet
  have comes : ((m.openCall t).wake (.arrive t)).arrivals = [t] := by
    simp [arrivals, turns, wake, openCall, note, ready, deferred, Turn.visitor?]
  have nobody : m.arrivals = [] := by simp [arrivals, h.turns_eq]
  have bares : ((m.openCall t).wake (.arrive t)).bare =
      { m.bare with calls := m.bare.calls ++ [.pending] } := by
    simp [bare, wake, openCall, note, Note.isInner]
  refine ⟨?_, ?_⟩
  · have line := h.gate_tableau ((m.openCall t).wake (.arrive t)).bare [t]
    rw [tableau, comes]
    refine line.trans ?_
    rw [bares, tableau, nobody, h.gate_tableau]
    simp [Tableau.opened, Ticket.entry, new, bare]
  · rw [passage_wakeArrive, passage_openCall]
    exact ⟨h.clear.queue, h.clear.waiting, h.clear.given⟩

theorem tableau_release (n : Nat) :
    (m.release n).tableau = m.tableau.submit (.release n) ∧ (m.release n).passage.Clear := by
  have more : tableau { m with permits := m.permits + n } = m.tableau.submit (.release n) := by
    have here := h.gate_tableau { m.bare with permits := m.bare.permits + n } m.arrivals
    rw [tableau, tableau, h.gate_tableau m.bare]
    exact here
  rcases m.release_cases n with ⟨-, same⟩ | same
  · rw [same]
    exact ⟨more, h.clear.queue, h.clear.waiting, h.clear.given⟩
  · have still : (m.release n).passage = passage { m with permits := m.permits + n } := by
      rw [same]
      exact (Unmoved.wake rfl _).passage_of_channel rfl
    rw [still, same, tableau_wake rfl]
    exact ⟨more, h.clear.queue, h.clear.waiting, h.clear.given⟩

theorem tableau_sends (idle : m.channel.worker = .idle) (command : Command) (args : Args) :
    let n := m.submit (.dispatch .queued command args)
    n.isQuiet = false ∧ n.step.tableau = m.tableau.opened (.dispatch command args) ∧
      n.step.passage.Clear := by
  obtain ⟨ready, deferred⟩ := isQuiet_iff.1 h.quiet
  have queue : m.channel.queue = [] := h.clear.queue
  have waiting : m.channel.waiting = [] := h.clear.waiting
  have nobody : m.arrivals = [] := by simp [arrivals, h.turns_eq]
  let p : Post := ⟨m.calls.length, command, args⟩
  have room : m.hasRoom := by
    simp [hasRoom, queue, ready, deferred, h.reachable.staffed.capacity]
  have sent : m.submit (.dispatch .queued command args) = { m with
      calls := m.calls ++ [.pending]
      channel := { m.channel with queue := [p], worker := .busy }
      ready := [.collect fairShare]
      journal := m.journal ++ [.opened p.ticket] ++ [.queued p.call] } := by
    have open' : (m.openCall p.ticket).channel.isClosed = false := by
      simp [openCall, note, Channel.isClosed, idle]
    have room' : (m.openCall p.ticket).hasRoom := room
    change (m.openCall p.ticket).send p = _
    rw [send, open', if_neg Bool.false_ne_true, if_pos room']
    simp [enqueue, openCall, note, wake, idle, queue, ready]
  let n : Machine := { m with
    calls := m.calls ++ [.pending]
    channel := { m.channel with queue := [], waiting := [], worker := .busy }
    ready := []
    journal := m.journal ++ [.opened p.ticket] ++ [.queued p.call] ++ [.taken p.call] }
  have takes : (m.submit (.dispatch .queued command args)).step =
      n.arrive p.ticket (126 + 1) := by
    rw [sent, step_of_ready rfl, take, fairShare, collect_of_cons rfl]
    simp [waiting, n]
  have attended : n.Attended := h.reachable.attended.frame rfl rfl (by simp [h.turns_eq])
  have bares : n.bare = { m.bare with calls := m.bare.calls ++ [.pending] } := by
    simp [n, bare, Note.isInner]
  have alone : n.arrivals = [] := by simp [arrivals, turns, n, deferred]
  refine ⟨by simp [sent, isQuiet], ?_, ?_⟩
  · have here : n.tableau = n.gate.tableau n.bare n.arrivals := rfl
    rw [takes, tableau_arrive attended, here, tableau, nobody, alone, h.gate_tableau m.bare]
    have gate := h.gate_tableau n.bare []
    rw [show n.gate = m.gate from rfl, gate, bares]
    simp [Tableau.opened, Ticket.entry, Post.ticket, p, bare]
  · rw [takes, passage_arrive]
    exact ⟨rfl, rfl, by simp [passage, turns, n, deferred]⟩

/-- After a move a machine rests where its tableau says. -/
theorem move (unbroken : d.Unbroken) {v : Move} (stays : v.givesUp = false)
    (apart : v.sends → ¬ m.Sending) :
    Resting d capacity (m.move v) ∧ (m.move v).tableau = (m.tableau.submit v).settle := by
  have settles {n : Machine} (patient : Patient d capacity n)
      (there : n.tableau = m.tableau.submit v) :
      Resting d capacity n.settle ∧ n.settle.tableau = (m.tableau.submit v).settle :=
    ⟨⟨patient.settle, isQuiet_settle n⟩, there ▸ patient.tableau_settle unbroken⟩
  have submits (moved : (m.submit v).tableau = m.tableau.submit v ∧ (m.submit v).passage.Clear) :=
    settles (h.patient_move stays moved.2) moved.1
  cases v with
  | dispatch path command args =>
    cases path with
    | attached | detached => exact submits (h.tableau_comes rfl)
    | queued =>
      obtain ⟨busy, there, clear⟩ := h.tableau_sends (h.idle unbroken (apart rfl)) command args
      have goes : Patient d capacity (m.submit (.dispatch .queued command args)).step :=
        { reachable := (h.reachable.tail (.move _ (timely_of_quiet h.quiet _))).tail .turn
          kept := fun call gave =>
            h.kept call ((Later.submit m stays).abandoned ((Later.step _).abandoned gave))
          clear }
      rw [Machine.move, settle_of_busy busy]
      exact settles goes there
  | arrange state => exact submits (h.tableau_comes rfl)
  | release n => exact submits (h.tableau_release n)
  | abandon call => cases stays

theorem observed {n : Machine} (reached : Reachable d capacity n) (calls : n.calls = m.calls)
    (passage : n.passage = m.passage) (gate : n.gate = m.gate) (turns : n.turns = m.turns) :
    Resting d capacity n ∧ n.tableau = { m.tableau with base := n.bare } := by
  have arrivals : n.arrivals = m.arrivals := by rw [arrivals, arrivals, turns]
  refine ⟨⟨⟨reached, calls ▸ h.kept, passage ▸ h.clear⟩, ?_⟩, ?_⟩
  · exact isQuiet_iff_turns.2 (turns.trans h.turns_eq)
  · rw [tableau, tableau, gate, arrivals, h.gate_tableau, h.gate_tableau]

theorem clearHistory : Resting d capacity m.clearHistory ∧
    m.clearHistory.tableau = { m.tableau with base := m.tableau.base.clearHistory } := by
  rw [h.base_eq]
  exact h.observed (h.reachable.tail .clearHistory) rfl rfl rfl rfl

theorem clearEvents : Resting d capacity m.clearEvents ∧
    m.clearEvents.tableau = { m.tableau with base := m.tableau.base.clearEvents } := by
  rw [h.base_eq]
  exact h.observed (h.reachable.tail .clearEvents) rfl rfl rfl rfl

theorem refusedFrame : Resting d capacity (m.log [.undecodable]) ∧ (m.log [.undecodable]).tableau =
    { m.tableau with base := m.tableau.base.log [.undecodable] } := by
  rw [h.base_eq, ← bare_log]
  have still := (Unmoved.log m [.undecodable]).passage_of_channel rfl
  exact h.observed (h.reachable.tail .refusedFrame) rfl still rfl rfl

end Machine.Resting

end Lifecycle
