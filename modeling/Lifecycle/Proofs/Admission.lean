import Lifecycle.Proofs.Account
import Lifecycle.Proofs.Growth
import Lifecycle.Proofs.Worker

/-! The gate is never shared and never leaked. One call at a time is inside; when nothing can go on
the gate is held by a blocked handler or by nobody, and if by nobody, no caller is left waiting and
whoever comes next gets in at once. -/

namespace Lifecycle

def Move.opens : Move → Bool
  | .dispatch .. | .arrange _ => true
  | _ => false

def Move.sends : Move → Bool
  | .dispatch .queued .. => true
  | _ => false

namespace Machine

/-- A live dispatch is blocked inside its handler, which has begun, has not ended and wants a permit
that is not there. A dispatch in the caller's own time lives as long as its caller waits. -/
structure Blocks (m : Machine) (call : Nat) : Prop where
  begun : call ∈ inHandler m.journal
  wants : ∃ r, m.gate.blocked? = some r ∧ 0 < r.permits
  lacks : m.permits = 0
  lives : ∃ t command args, ticketOf m.journal call = some t ∧ t.work = .dispatch command args ∧
    (t.seat = .caller → m.isPending call)

variable {d : Dispatcher} {capacity : Nat} {m : Machine}

theorem Reachable.inside_eq (h : Reachable d capacity m) :
    inside m.journal = (m.gate.ticket?.map (·.call)).toList := by
  rw [h.lawful.inside_eq, ← m.gate.phase_ticket?]

theorem Reachable.blocks_of_held (h : Reachable d capacity m) {x : Holding}
    (held : m.gate.holder = some x) (stuck : ∀ share, .proceed share ∉ m.turns) :
    m.Blocks x.ticket.call ∧ inHandler m.journal = [x.ticket.call] := by
  obtain ⟨⟨r, run, wants⟩, lacks⟩ := h.attended.blocked held stuck
  have lawful := h.lawful
  simp only [Gate.phase, held, Holding.phase, run] at lawful
  have begun : inHandler m.journal = [x.ticket.call] := lawful.inHandler_eq
  have mem : x.ticket ∈ m.tickets := by
    simp [tickets, Gate.ticket?, held]
  obtain ⟨-, args, _, _, _, work, -⟩ := lawful.of_running
  refine ⟨⟨by simp [begun], ⟨r, by simp [Gate.blocked?, held, run], wants⟩, lacks, x.ticket, _,
    args, h.orderly.known _ mem, work, fun own => ?_⟩, begun⟩
  exact (h.orderly.unanswered _ mem).resolve_right fun given => given.1 own

theorem Reachable.tickets_eq_nil (h : Reachable d capacity m) (quiet : m.isQuiet)
    (free : m.gate.isFree) : m.tickets = [] ∧ m.channel.worker ≠ .busy := by
  have turns := isQuiet_iff_turns.1 quiet
  have nobody : m.gate.ticket? = none := by simpa [Gate.isFree, Gate.ticket?] using free
  have line := h.attended.line free
  have staffed := h.staffed
  have rests : m.channel.worker ≠ .busy := by
    have errands := staffed.busy
    intro busy
    simp [Machine.errands, turns, nobody, line, busy] at errands
  have queue : m.channel.queue = [] := by
    cases worker : m.channel.worker with
    | idle => exact staffed.idle worker
    | busy => exact absurd worker rests
    | gone => exact (staffed.gone worker).1
  have waiting : m.channel.waiting = [] := by
    refine Decidable.byContradiction fun some => ?_
    have full := staffed.full some
    have room := staffed.capacity
    simp [queue, turns] at full
    omega
  exact ⟨by simp [tickets, entrants, turns, nobody, line, queue, waiting], rests⟩

theorem Reachable.nobody_waits (h : Reachable d capacity m) (quiet : m.isQuiet)
    (free : m.gate.isFree) (call : Nat) : ¬ m.isPending call := by
  intro waits
  have inRange := (List.getElem?_eq_some_iff.1 (isPending_iff.1 waits)).1
  obtain ⟨t, opened, rfl⟩ := h.orderly.opened call inRange
  rcases h.orderly.waits t opened waits with mem | ⟨command, text, mem⟩
  · rw [(h.tickets_eq_nil quiet free).1] at mem
    cases mem
  · rw [isQuiet_iff_turns.1 quiet] at mem
    cases mem

theorem admitted_settle {m rest : Machine} {t : Ticket} {share : Nat} (busy : m.isQuiet = false)
    (next : m.step = rest.arrive t (share + 1)) (free : rest.gate.holder = none) :
    .admitted t.call ∈ m.settle.journal := by
  have later := (reaches_step_settle busy).subset
  rw [next, arrive_of_free free] at later
  exact later (by simp)

theorem step_of_collect {m : Machine} {share : Nat} {ready : List Turn} {p : Post} {ps : List Post}
    (next : m.ready = .collect (share + 1) :: ready) (queue : m.channel.queue = p :: ps) :
    m.step = arrive { m with
      channel := { m.channel with queue := ps, waiting := m.channel.waiting.tail }
      ready := ready ++ (m.channel.waiting.head?.map Turn.place).toList
      journal := m.journal ++ [.taken p.call] } p.ticket share := by
  rw [step_of_ready next]
  exact collect_of_cons (m := { m with ready }) queue share

theorem Reachable.admits_sent (h : Reachable d capacity m) (quiet : m.isQuiet)
    (free : m.gate.isFree) (alive : m.channel.isClosed = false) (command : Command) (args : Args) :
    .admitted m.calls.length ∈ (m.move (.dispatch .queued command args)).journal := by
  have nobody : m.gate.holder = none := by simpa [Gate.isFree] using free
  obtain ⟨ready, deferred⟩ := isQuiet_iff.1 quiet
  have idle : m.channel.worker = .idle := by
    cases worker : m.channel.worker with
    | idle => rfl
    | busy => exact absurd worker (h.tickets_eq_nil quiet free).2
    | gone => simp [Channel.isClosed, worker] at alive
  have queue := h.staffed.idle idle
  have room := h.staffed.capacity
  have sent : m.submit (.dispatch .queued command args) = { m with
      channel := { m.channel with queue := [⟨m.calls.length, command, args⟩], worker := .busy }
      ready := [.collect fairShare]
      calls := m.calls ++ [.pending]
      journal := m.journal ++ [.opened ⟨m.calls.length, .worker, .dispatch command args⟩,
        .queued m.calls.length] } := by
    simp [submit, dispatch, Path.seat, openCall, send, hasRoom, enqueue, note, wake, alive, room,
      idle, queue, ready, deferred]
  have next : (m.submit (.dispatch .queued command args)).ready = [.collect (127 + 1)] := by
    rw [sent]
    rfl
  have queued : (m.submit (.dispatch .queued command args)).channel.queue =
      [⟨m.calls.length, command, args⟩] := by rw [sent]
  exact admitted_settle (by simp [isQuiet, next]) (step_of_collect next queued)
    (by rw [sent]; exact nobody)

theorem Reachable.admits_next (h : Reachable d capacity m) (quiet : m.isQuiet)
    (free : m.gate.isFree) {v : Move} (opens : v.opens)
    (alive : v.sends → m.channel.isClosed = false) :
    .admitted m.calls.length ∈ (m.move v).journal := by
  have nobody : m.gate.holder = none := by simpa [Gate.isFree] using free
  have ready : m.ready = [] := (isQuiet_iff.1 quiet).1
  have arrives (t : Ticket) (new : t.call = m.calls.length) :
      .admitted m.calls.length ∈ ((m.openCall t).wake (.arrive t)).settle.journal := by
    have next : ((m.openCall t).wake (.arrive t)).ready = [.arrive t] := by
      simp [wake, openCall, note, ready]
    rw [← new]
    exact admitted_settle (by simp [isQuiet, next]) (step_of_ready next) nobody
  cases v with
  | dispatch path command args =>
    cases path with
    | attached | detached => exact arrives _ rfl
    | queued => exact h.admits_sent quiet free (alive rfl) command args
  | arrange state => exact arrives _ rfl
  | release | abandon => cases opens

theorem refused_of_closed (closed : m.channel.isClosed) {v : Move} (sends : v.sends) :
    (m.move v).calls[m.calls.length]? = some (.answered (.undelivered .closed)) := by
  cases v with
  | dispatch path command args =>
    cases path with
    | attached | detached => cases sends
    | queued =>
      have told : (m.submit (.dispatch .queued command args)).calls[m.calls.length]? =
          some (.answered (.undelivered .closed)) := by
        simp [submit, dispatch, Path.seat, send, closed, answer, isPending, setProgress, openCall,
          note]
      exact (reaches_settle _).later.settled told (by simp)
  | arrange | release | abandon => cases sends

/-- At most one call is between its admission and its leaving, and nobody waits for a free gate.
When nothing can go on, the gate is held exactly if one live dispatch is blocked inside its handler;
if it is free no caller waits for anything, and the next one gets in at once, unless it sends its
request to a dead worker. All this holds whatever the handlers do, and also if the history and the
sink break down; a history or a sink that would wait is not described, so none can hold the gate. -/
theorem gate_never_shared_nor_leaked (h : Reachable d capacity m) :
    ((inside m.journal).length ≤ 1 ∧
      inside m.journal = (m.gate.ticket?.map (·.call)).toList) ∧
    (m.gate.isFree → m.gate.waiting = []) ∧
    (m.isQuiet → (m.gate.isFree = false ↔ ∃! call, m.Blocks call)) ∧
    (m.isQuiet → m.gate.isFree → (∀ call, ¬ m.isPending call) ∧
      ∀ v : Move, v.opens → .admitted m.calls.length ∈ (m.move v).journal ∨
        v.sends ∧ m.channel.isClosed ∧
          (m.move v).calls[m.calls.length]? = some (.answered (.undelivered .closed))) := by
  refine ⟨⟨?_, h.inside_eq⟩, h.attended.line, fun quiet => ⟨fun taken => ?_, ?_⟩,
    fun quiet free => ⟨h.nobody_waits quiet free, fun v opens => ?_⟩⟩
  · rw [h.inside_eq]
    exact Option.length_toList_le
  · cases held : m.gate.holder with
    | none => simp [Gate.isFree, held] at taken
    | some x =>
      obtain ⟨blocks, one⟩ := h.blocks_of_held held (by simp [isQuiet_iff_turns.1 quiet])
      refine ⟨x.ticket.call, blocks, fun call other => ?_⟩
      have begun := other.begun
      rwa [one, List.mem_singleton] at begun
  · rintro ⟨call, blocks, -⟩
    obtain ⟨r, run, -⟩ := blocks.wants
    cases held : m.gate.holder with
    | none => simp [Gate.blocked?, held] at run
    | some x => simp [Gate.isFree, held]
  · by_cases dead : v.sends ∧ m.channel.isClosed
    · exact .inr ⟨dead.1, dead.2, refused_of_closed dead.2 dead.1⟩
    · refine .inl (h.admits_next quiet free opens fun sends => ?_)
      exact Bool.eq_false_iff.2 fun closed => dead ⟨sends, closed⟩

theorem gate_held_by_blocked_start :
    ∃ m : Machine, Reachable .patient 1 m ∧ m.isQuiet ∧ m.gate.isFree = false ∧
      ∃! call, m.Blocks call := by
  have reachable := reachable_run .patient 1
    [.dispatch .attached .start .empty, .arrange .error, .dispatch .queued .recover .empty]
  obtain ⟨-, -, heldIff, -⟩ := gate_never_shared_nor_leaked reachable
  have quiet := isQuiet_run .patient 1
    [.dispatch .attached .start .empty, .arrange .error, .dispatch .queued .recover .empty]
  refine ⟨_, reachable, quiet, ?_, ?_⟩
  · rfl
  · apply (heldIff quiet).1
    rfl

end Machine

end Lifecycle
