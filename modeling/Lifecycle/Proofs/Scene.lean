import Lifecycle.Proofs.Procession
import Lifecycle.Proofs.Unobserved

/-! Where things stand, apart from what is recorded, and where they go from there. Whoever comes to
the gate by itself is served in its turn until a handler lacks permits. Neither turns nor shares nor
records have a part in this; and every turn of a machine nobody sends anything through keeps to
it. -/

namespace Lifecycle

/-- The status, the permits, the handler runs that have begun, the run inside that lacks permits,
and those who are served after it. -/
structure Scene where
  status : Status
  permits : Nat
  ran : List (Nat × Context)
  inside : Option (Ticket × Run) := none
  line : List Ticket := []

/-- Whether it is in the hand of the machine itself, not of its callers. -/
def Hand.isOwn : Hand → Bool
  | .empty | .move _ => false
  | _ => true

namespace Scene

def advance (x : Scene) (t : Ticket) (r : Run) : Scene :=
  if r.permits ≤ x.permits then
    { x with
      permits := x.permits - r.permits
      status := (r.outcome.decide r.command r.previous r.fallback).status r.command x.status }
  else { x with permits := 0, inside := some (t, { r with permits := r.permits - x.permits }) }

def letIn (d : Dispatcher) (x : Scene) (t : Ticket) : Scene :=
  match t.work with
  | .arrange state => { x with status := x.status.arrange state }
  | .dispatch command args =>
    match (d.withStatus x.status).prepare command with
    | .error failure => { x with status := (Decision.refuse failure).status command x.status }
    | .ok (fallback, handler) =>
      let context : Context := ⟨command, x.status.state, args⟩
      let b := handler.behaviour (x.ran.countP fun r => r.2.command == command) context
      { x with ran := x.ran ++ [(t.call, context)] }.advance t
        ⟨command, context.state, fallback, b.permits, b.outcome⟩

def come (d : Dispatcher) (x : Scene) (t : Ticket) : Scene :=
  if x.inside.isSome then { x with line := x.line ++ [t] } else x.letIn d t

def cleared (x : Scene) : Scene := { x with inside := none, line := [] }

def settle (d : Dispatcher) (x : Scene) : Scene :=
  x.line.foldl (come d) (match x.inside with
    | none => x.cleared
    | some (t, r) => x.cleared.advance t r)

variable {d : Dispatcher} {x : Scene} {t : Ticket} {r : Run}

theorem advance_part {got : Nat} (needs : got ≤ r.permits) (there : got ≤ x.permits) :
    { x with permits := x.permits - got }.advance t { r with permits := r.permits - got } =
      x.advance t r := by
  unfold advance
  by_cases enough : r.permits ≤ x.permits
  · rw [if_pos enough, if_pos (Nat.sub_le_sub_right enough got)]
    have rest : x.permits - got - (r.permits - got) = x.permits - r.permits := by omega
    simp only [rest]
  · have few : ¬ r.permits - got ≤ x.permits - got := by omega
    rw [if_neg enough, if_neg few]
    have lacks : r.permits - got - (x.permits - got) = r.permits - x.permits := by omega
    simp only [lacks]

theorem foldl_come_of_blocked (blocked : x.inside.isSome) (ts : List Ticket) :
    ts.foldl (come d) x = { x with line := x.line ++ ts } := by
  induction ts generalizing x with
  | nil => rw [List.foldl_nil, List.append_nil]
  | cons t ts ih =>
    have comes : x.come d t = { x with line := x.line ++ [t] } := if_pos blocked
    rw [List.foldl_cons, comes, ih (x := { x with line := x.line ++ [t] }) blocked,
      List.append_assoc, List.singleton_append]

theorem settle_of_blocked (blocked : x.inside = some (t, r)) (none : x.permits = 0)
    (lacks : 0 < r.permits) : x.settle d = x := by
  obtain ⟨status, permits, ran, inside, line⟩ := x
  obtain rfl : inside = some (t, r) := blocked
  obtain rfl : permits = 0 := none
  have stays : advance ⟨status, 0, ran, .none, []⟩ t r = ⟨status, 0, ran, some (t, r), []⟩ :=
    if_neg (Nat.not_le_of_lt lacks)
  simp only [settle, cleared, stays]
  rw [foldl_come_of_blocked rfl, List.nil_append]

theorem settle_of_empty (nobody : x.inside = none) (empty : x.line = []) : x.settle d = x := by
  obtain ⟨status, permits, ran, inside, line⟩ := x
  obtain rfl : inside = none := nobody
  obtain rfl : line = [] := empty
  rfl

theorem settle_cons (nobody : x.inside = none) {ts : List Ticket} (line : x.line = t :: ts) :
    x.settle d = ts.foldl (come d) (x.cleared.letIn d t) := by
  simp only [settle, nobody, line, List.foldl_cons]
  rfl

end Scene

def Gate.inside? (g : Gate) : Option (Ticket × Run) :=
  match g.holder with
  | some ⟨t, .running r⟩ => some (t, r)
  | _ => none

def Gate.line (g : Gate) : List Ticket :=
  match g.holder with
  | some ⟨t, .admitted⟩ => t :: g.waiting
  | _ => g.waiting

namespace Machine

def arrivals (m : Machine) : List Ticket := m.turns.filterMap Turn.visitor?

def scene (m : Machine) : Scene where
  status := m.status
  permits := m.permits
  ran := m.journal.filterMap Note.running?
  inside := m.gate.inside?
  line := m.gate.line ++ m.arrivals

def onward (m : Machine) : Scene :=
  { m.scene with inside := none, line := m.gate.waiting ++ m.arrivals }

variable {d : Dispatcher} {m n m' : Machine} {t : Ticket}

theorem scene_congr (status : n.status = m.status) (permits : n.permits = m.permits)
    (gate : n.gate = m.gate) (arrivals : n.arrivals = m.arrivals) {news : List Note}
    (journal : n.journal = m.journal ++ news) (still : ∀ x ∈ news, x.running? = none) :
    n.scene = m.scene ∧ n.onward = m.onward := by
  have ran : news.filterMap Note.running? = [] := List.filterMap_eq_nil_iff.2 still
  constructor <;>
    simp only [onward, scene, status, permits, gate, arrivals, journal, List.filterMap_append, ran,
      List.append_nil]

theorem scene_answer (m : Machine) (call : Nat) (a : Answer) :
    (m.answer call a).scene = m.scene := by
  obtain ⟨calls, same, -⟩ := m.answer_eq call a
  rw [same]
  rfl

theorem scene_log (m : Machine) (records : List LogRecord) :
    (m.log records).scene = m.scene ∧ (m.log records).onward = m.onward :=
  scene_congr rfl rfl rfl rfl rfl fun n mem => by
    obtain ⟨record, -, rfl⟩ := List.mem_map.1 mem
    rfl

section turns

variable {turn : Turn} (other : turn.visitor? = none)
include other

theorem scene_wake : (m.wake turn).scene = m.scene := by
  simp [scene, arrivals, turns, wake, other, status]

theorem scene_resume : (m.resume turn).scene = m.scene := by
  simp [scene, arrivals, turns, resume, other, status]

theorem scene_putOff : (m.putOff turn).scene = m.scene := by
  simp [scene, arrivals, turns, putOff, other, status]

end turns

theorem scene_passOn (inside : m.gate.ticket? = some t) : m.passOn.scene = m.onward := by
  cases line : m.gate.waiting with
  | nil =>
    rw [passOn_of_nil inside line]
    simp [onward, scene, line, Gate.inside?, Gate.line, arrivals, turns, Note.running?, status]
  | cons u us =>
    rw [passOn_of_cons inside line]
    simp [onward, scene, line, Gate.inside?, Gate.line, arrivals, turns, Note.running?, status,
      List.filterMap_cons, Turn.visitor?]

theorem Closes.scene {command : Command} {e : Ending} (closes : Closes t command m e m') :
    m'.scene = m.scene := by
  cases closes with
  | told | panicked => exact scene_answer ..
  | reported => exact scene_wake rfl
  | unheard => rfl
  | replied => rw [scene_resume rfl, (scene_log ..).1, scene_answer]
  | buried =>
    obtain ⟨calls, same, -⟩ := m.bury_eq t.call
    rw [same]
    rfl

theorem Records.not_running {ledger ledger' : Ledger} {telemetry telemetry' : Telemetry}
    {call : Nat} {r : Result} {e : Event} {recorded : List Note} {ending : Ending}
    (records : Records ledger telemetry call r e ledger' telemetry' recorded ending) :
    ∀ n ∈ recorded, n.running? = none := by
  cases records <;> simp [Note.running?]

theorem onward_record (m : Machine) (call : Nat) (r : Result) (e : Event) :
    (m.record call r e).1.onward = m.onward ∧ (m.record call r e).1.gate = m.gate := by
  obtain ⟨ledger, telemetry, news, ending, same, records⟩ := m.record_eq call r e
  rw [same]
  have alike := scene_congr (m := m) (n := { m with
    dispatcher := { m.dispatcher with ledger, telemetry }, journal := m.journal ++ news })
    rfl rfl rfl rfl rfl records.not_running
  exact ⟨alike.2, rfl⟩

theorem scene_wrapUp (inside : m.gate.ticket? = some t) (r : Result) (e : Event) (share : Nat) :
    (m.wrapUp t r e share).scene = m.onward := by
  unfold wrapUp
  split
  · rw [scene_putOff rfl]
    rfl
  · obtain ⟨same, gate⟩ := m.onward_record t.call r e
    dsimp only
    rw [(closes_conclude ..).scene, scene_passOn (gate ▸ inside), same]

theorem scene_finish (inside : m.gate.ticket? = some t) (command : Command) (previous : State)
    (outcome : Option Outcome) (decision : Decision) (share : Nat) :
    (m.finish t command previous outcome decision share).scene =
      { m.onward with status := decision.status command m.status } := by
  have held : (m.commit t.call command previous outcome decision).gate.ticket? = some t := inside
  rw [finish, scene_wrapUp held]
  simp [onward, scene, commit, log, setStatus, note, Note.running?, status, arrivals, turns]

/-- A run that takes permits goes where it would go if it took all that it can at once, whether it
ends, is put off or is blocked. -/
theorem settle_advance (m : Machine) (t : Ticket) (r : Run) (share : Nat) :
    (m.advance t r share).scene.settle d =
      { m.onward with inside := some (t, r) }.settle d := by
  have needs : min (min r.permits m.permits) share ≤ r.permits :=
    Nat.le_trans (Nat.min_le_left ..) (Nat.min_le_left ..)
  have there : min (min r.permits m.permits) share ≤ m.permits :=
    Nat.le_trans (Nat.min_le_left ..) (Nat.min_le_right ..)
  unfold advance
  generalize min (min r.permits m.permits) share = got at needs there
  have stays : { m with
      permits := m.permits - got
      gate := { m.gate with
        holder := some ⟨t, .running { r with permits := r.permits - got }⟩ } }.scene.settle d =
      { m.onward with inside := some (t, r) }.settle d := by
    have part := Scene.advance_part (x := m.onward.cleared) (t := t) needs there
    exact congrArg ((m.gate.waiting ++ m.arrivals).foldl (Scene.come d)) part
  dsimp only
  split
  · next all =>
    subst all
    rw [scene_finish rfl]
    have ends : m.onward.cleared.advance t r = _ := if_pos there
    exact congrArg ((m.gate.waiting ++ m.arrivals).foldl (Scene.come d)) ends.symm
  · split
    · rw [scene_putOff rfl, stays]
    · exact stays

theorem begin_arrange (inside : m.gate.ticket? = some t) {state : State}
    (work : t.work = .arrange state) (share : Nat) : (m.begin t share).scene =
      { m.onward with status := m.status.arrange state } := by
  simp only [begin, work]
  rw [scene_answer, scene_passOn (t := t) (by exact inside)]
  simp [onward, scene, log, setStatus, note, Note.running?, status, arrivals, turns]

theorem begin_refused (inside : m.gate.ticket? = some t) {command : Command} {args : Args}
    (work : t.work = .dispatch command args) {failure : Failure}
    (refused : m.dispatcher.prepare command = .error failure) (share : Nat) :
    (m.begin t share).scene =
      { m.onward with status := (Decision.refuse failure).status command m.status } := by
  simp only [begin, work, refused]
  exact scene_finish inside ..

theorem begin_prepared {command : Command} {args : Args} (work : t.work = .dispatch command args)
    {fallback : State} {handler : Handler}
    (prepared : m.dispatcher.prepare command = .ok (fallback, handler)) (share : Nat) :
    let context : Context := ⟨command, m.state, args⟩
    let b := handler.behaviour (m.runs command) context
    (m.begin t share).scene.settle d = Scene.settle d { m.onward with
      ran := m.onward.ran ++ [(t.call, context)]
      inside := some (t, ⟨command, m.state, fallback, b.permits, b.outcome⟩) } := by
  simp only [begin, work, prepared]
  rw [settle_advance]
  simp [onward, scene, note, Note.running?, status, arrivals, turns]

section proceeds

variable (alike : d.Alike m.dispatcher)
include alike

theorem settle_begin (held : m.gate.holder = some ⟨t, .admitted⟩) (share : Nat) :
    (m.begin t share).scene.settle d = m.scene.settle d := by
  have inside : m.gate.ticket? = some t := Gate.ticket?_eq_some.2 ⟨_, held⟩
  have served : m.scene.settle d =
      (m.gate.waiting ++ m.arrivals).foldl (Scene.come d) (m.onward.cleared.letIn d t) := by
    refine Scene.settle_cons ?_ ?_
    · simp [scene, Gate.inside?, held]
    · simp [scene, Gate.line, held]
  rw [served]
  cases work : t.work with
  | arrange state =>
    rw [begin_arrange inside work, Scene.letIn, work]
    rfl
  | dispatch command args =>
    have prepares : (d.withStatus m.onward.cleared.status).prepare command =
        m.dispatcher.prepare command := alike.prepare command
    cases prepared : m.dispatcher.prepare command with
    | error failure =>
      rw [begin_refused inside work prepared]
      simp only [Scene.letIn, work, prepares, prepared]
      rfl
    | ok found =>
      rw [begin_prepared work prepared, runs_eq]
      simp only [Scene.letIn, work, prepares, prepared]
      rfl

theorem settle_proceed (share : Nat) :
    (m.proceed share).scene.settle d = m.scene.settle d := by
  unfold proceed
  split
  · rfl
  · next holding held =>
    obtain ⟨t, stage⟩ := holding
    have inside : m.gate.ticket? = some t := Gate.ticket?_eq_some.2 ⟨stage, held⟩
    dsimp only
    split
    · exact settle_begin alike held share
    · next r =>
      rw [settle_advance]
      simp [onward, scene, Gate.inside?, Gate.line, held]
    · next r e =>
      rw [scene_wrapUp inside]
      simp [onward, scene, Gate.inside?, Gate.line, held]

end proceeds

/-- Whoever comes to the gate is the next in line, whether or not it gets in. -/
theorem scene_arrive (h : m.Attended) (t : Ticket) (share : Nat) :
    (m.arrive t (share + 1)).scene =
      { m.scene with line := m.gate.line ++ t :: m.arrivals } := by
  cases held : m.gate.holder with
  | none =>
    have nobody : m.gate.waiting = [] := h.line (by simp [Gate.isFree, held])
    rw [arrive_of_free held]
    simp [scene, arrivals, turns, status, Gate.inside?, Gate.line, held, nobody, Note.running?,
      List.filterMap_cons, Turn.visitor?]
  | some holding =>
    rw [arrive_of_held held]
    obtain ⟨u, _ | _ | _⟩ := holding <;>
      simp [scene, arrivals, turns, status, Gate.inside?, Gate.line, held]

theorem Places.scene {p : Post} (places : Places m p m') : m'.scene = m.scene := by
  cases places with
  | refused => exact scene_answer ..
  | rouses =>
    simp [scene, arrivals, turns, status, List.filterMap_cons, Turn.visitor?, Note.running?]
  | queues => simp [scene, arrivals, turns, status, Note.running?]

theorem scene_collect (empty : m.channel.queue = []) (share : Nat) :
    (m.collect share).scene = m.scene := by
  cases share with
  | zero => exact scene_putOff rfl
  | succ share =>
    rw [collect_of_nil empty]
    rfl

/-- As long as the worker has nothing to take, every turn leaves open only what was open. -/
theorem settle_step (alike : d.Alike m.dispatcher) (h : m.Attended)
    (empty : m.channel.queue = []) : m.step.scene.settle d = m.scene.settle d := by
  rcases m.step_cases with ⟨-, same⟩ | ⟨turn, ready, deferred, next, -, same⟩
  · rw [same]
  have picked (other : turn.visitor? = none) : scene { m with ready, deferred } = m.scene := by
    have arrivals : m.arrivals = arrivals { m with ready, deferred } := by
      rw [Machine.arrivals, next, List.filterMap_cons_none other]
      rfl
    rw [scene, scene, arrivals]
    rfl
  rw [same]
  cases turn with
  | arrive t =>
    have attended : Attended { m with ready, deferred } := by
      refine h.frame rfl rfl fun share mem => ?_
      rw [next] at mem
      exact (List.mem_cons.1 mem).resolve_left nofun
    have arrivals : m.arrivals = t :: arrivals { m with ready, deferred } := by
      rw [Machine.arrivals, next]
      rfl
    rw [take, fairShare, scene_arrive attended, scene, scene, arrivals]
    rfl
  | proceed share => rw [take, settle_proceed (by exact alike), picked rfl]
  | collect share => rw [take, scene_collect (by exact empty), picked rfl]
  | place p => rw [take, (Machine.places _ p).scene, picked rfl]
  | report call command payload => rw [take, report, scene_answer, (scene_log ..).1, picked rfl]

theorem Attended.settled (h : m.Attended) (quiet : m.isQuiet) : m.scene.settle d = m.scene := by
  have turns := isQuiet_iff_turns.1 quiet
  have nobody : m.arrivals = [] := by rw [arrivals, turns, List.filterMap_nil]
  cases held : m.gate.holder with
  | none =>
    have line : m.gate.waiting = [] := h.line (by simp [Gate.isFree, held])
    refine Scene.settle_of_empty ?_ ?_
    · simp [scene, Gate.inside?, held]
    · simp [scene, Gate.line, held, line, nobody]
  | some holding =>
    obtain ⟨⟨r, run, lacks⟩, none⟩ := h.blocked held (by simp [turns])
    refine Scene.settle_of_blocked (t := holding.ticket) (r := r) ?_ none lacks
    obtain ⟨t, stage⟩ := holding
    obtain rfl : stage = .running r := run
    simp [scene, Gate.inside?, held]

def Unsent (m : Machine) : Prop := ∀ t, .opened t ∈ m.journal → t.seat ≠ .worker

variable {hand hand' : Hand}

theorem Act.length (act : Act m hand hand' m') (own : hand.isOwn) :
    m'.calls.length = m.calls.length := by
  cases act with
  | reports | forces => exact (Unmoved.answer ..).calls
  | places _ places =>
    cases places with
    | refused => exact (Unmoved.answer ..).calls
    | rouses | queues => rfl
  | leaves | arranges => rw [calls_passOn]; rfl
  | closes closes => exact (Unmoved.closes closes).calls
  | givesUp => exact List.length_set
  | opens | asks | withdraws | handsOn => cases own
  | _ => rfl

theorem Act.isOwn (act : Act m hand hand' m') (own : hand.isOwn) (busy : hand' ≠ .empty) :
    hand'.isOwn := by
  cases act <;> first | rfl | exact absurd rfl busy | cases own

theorem length_step (m : Machine) : m.step.calls.length = m.calls.length :=
  (acts_step m).relates (R := fun m m' => m'.calls.length = m.calls.length)
    (fun first next => next.trans first) (fun own act => act.isOwn own)
    (fun own act => act.length own) (rfl : Hand.step.isOwn)

theorem length_settle (m : Machine) : m.settle.calls.length = m.calls.length :=
  steps_keep (P := fun n => n.calls.length = m.calls.length)
    (fun n same => n.length_step.trans same) m.work rfl

section reachable

variable {capacity : Nat} (h : Reachable d capacity m)
include h

theorem Reachable.opened_eq (later : Reaches m m') (same : m'.calls.length = m.calls.length) :
    m'.journal.filterMap Note.ticket? = m.journal.filterMap Note.ticket? := by
  have numbered {m : Machine} (h : Reachable d capacity m) :
      (m.journal.filterMap Note.ticket?).length = m.calls.length := by
    obtain ⟨gone, sound⟩ := h.in_order
    simpa [approach] using congrArg List.length sound.numbered
  obtain ⟨news, journal, -⟩ := later.later.journal
  have before := numbered h
  have after := numbered (h.trans later)
  rw [journal, List.filterMap_append, List.length_append] at after
  have none : news.filterMap Note.ticket? = [] := List.eq_nil_of_length_eq_zero (by omega)
  rw [journal, List.filterMap_append, none, List.append_nil]

theorem Reachable.unsent_later (unsent : m.Unsent) (later : Reaches m m')
    (same : m'.calls.length = m.calls.length) : m'.Unsent := by
  intro t opened
  have mem : t ∈ m'.journal.filterMap Note.ticket? := List.mem_filterMap.2 ⟨_, opened, rfl⟩
  rw [h.opened_eq later same] at mem
  obtain ⟨n, mem, shows⟩ := List.mem_filterMap.1 mem
  cases n <;> cases shows
  exact unsent t mem

theorem Reachable.channel_empty (unsent : m.Unsent) :
    m.channel.queue = [] ∧ m.channel.waiting = [] := by
  have nobody (p : Post) (mem : p ∈ m.channel.queue ++ m.channel.waiting) : False := by
    have ticket : p.ticket ∈ m.tickets := by
      simp only [tickets, entrants, List.mem_append]
      exact .inr (.inr (List.mem_map_of_mem mem))
    exact unsent _ (mem_of_ticketOf (h.orderly.known _ ticket)) rfl
  rw [← List.append_eq_nil_iff]
  exact List.eq_nil_iff_forall_not_mem.2 nobody

theorem Reachable.scene_settle (unsent : m.Unsent) : m.settle.scene = m.scene.settle d := by
  have kept : Reachable d capacity m.settle ∧ m.settle.Unsent ∧
      m.settle.scene.settle d = m.scene.settle d := by
    refine steps_keep (P := fun n => Reachable d capacity n ∧ n.Unsent ∧
      n.scene.settle d = m.scene.settle d) (fun n ⟨h, unsent, same⟩ => ?_) m.work
      ⟨h, unsent, rfl⟩
    refine ⟨h.tail .turn, h.unsent_later unsent (.single .turn) n.length_step, ?_⟩
    rw [settle_step h.accounted.alike h.attended (h.channel_empty unsent).1, same]
  rw [← kept.2.2, kept.1.attended.settled (isQuiet_settle m)]

end reachable

end Machine

end Lifecycle
