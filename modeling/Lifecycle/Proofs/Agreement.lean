import Lifecycle.Proofs.Replies
import Lifecycle.Proofs.Scene

/-! Machines that stand at the same place when nothing can go on. As long as nobody sends anything
through the channel they do so after every move, though records may break down in the one and not in
the other: a breakdown changes what one caller is told, and nothing else. -/

namespace Lifecycle

namespace Scene

def tickets (x : Scene) : List Ticket := (x.inside.map Prod.fst).toList ++ x.line

def giveUp (x : Scene) (call : Nat) : Scene :=
  if x.inside.any fun y => y.1.call == call && y.1.seat == .caller then { x with inside := none }
  else { x with line := x.line.filter fun t => !(t.call == call && t.seat == .caller) }

def move (x : Scene) (calls : Nat) : Move → Scene
  | .dispatch path command args =>
    { x with line := x.line ++ [⟨calls, path.seat, .dispatch command args⟩] }
  | .arrange state => { x with line := x.line ++ [⟨calls, .caller, .arrange state⟩] }
  | .release n => { x with permits := x.permits + n }
  | .abandon call => x.giveUp call

theorem giveUp_of_none {x : Scene} {call : Nat}
    (none : ∀ t ∈ x.tickets, t.call = call → t.seat ≠ .caller) : x.giveUp call = x := by
  have other {t : Ticket} (mem : t ∈ x.tickets) :
      (t.call == call && t.seat == .caller) = false := by
    simpa using none t mem
  have outside : x.inside.any (fun y => y.1.call == call && y.1.seat == .caller) = false := by
    cases inside : x.inside with
    | none => rfl
    | some y => exact other (by simp [tickets, inside])
  have stays : x.line.filter (fun t => !(t.call == call && t.seat == .caller)) = x.line :=
    List.filter_eq_self.2 fun t mem => by rw [other (List.mem_append_right _ mem), Bool.not_false]
  rw [giveUp, outside, if_neg Bool.false_ne_true, stays]

end Scene

namespace Machine

variable {d e : Dispatcher} {capacity : Nat} {m n : Machine} {call : Nat} {v : Move}

theorem calls_submit (m : Machine) (stays : v.sends = false) : (m.submit v).calls = match v with
    | .dispatch .. | .arrange _ => m.calls ++ [.pending]
    | .release _ => m.calls
    | .abandon call => if m.isPending call then m.calls.set call .abandoned else m.calls := by
  cases v with
  | dispatch path command args =>
    cases path with
    | attached | detached => rfl
    | queued => cases stays
  | arrange state => rfl
  | release k => rcases m.release_cases k with ⟨-, same⟩ | same <;> rw [submit, same]; rfl
  | abandon call =>
    rw [submit]
    dsimp only
    split
    · next waits => exact calls_abandon waits
    · next given => rw [abandon_of_not_pending given]

/-- A configuration in which nothing can go on, of a dispatcher nobody sends anything through. -/
structure Rests (d : Dispatcher) (capacity : Nat) (m : Machine) : Prop where
  reachable : Reachable d capacity m
  unsent : m.Unsent
  quiet : m.isQuiet

namespace Rests

variable (h : Rests d capacity m)
include h

theorem arrivals_eq : m.arrivals = [] := by
  rw [arrivals, isQuiet_iff_turns.1 h.quiet, List.filterMap_nil]

theorem gate_eq : (∀ waiting, Gate.line { m.gate with waiting } = waiting) ∧
    m.gate.inside?.map Prod.fst = m.gate.ticket? := by
  cases held : m.gate.holder with
  | none => simp [Gate.line, Gate.inside?, Gate.ticket?, held]
  | some holding =>
    have stuck (share : Nat) : .proceed share ∉ m.turns := by simp [isQuiet_iff_turns.1 h.quiet]
    obtain ⟨⟨r, run, -⟩, -⟩ := h.reachable.attended.blocked held stuck
    obtain ⟨t, stage⟩ := holding
    obtain rfl : stage = .running r := run
    simp [Gate.line, Gate.inside?, Gate.ticket?, held]

theorem line_eq : m.scene.line = m.gate.waiting := by
  change m.gate.line ++ m.arrivals = m.gate.waiting
  rw [h.arrivals_eq, List.append_nil]
  exact h.gate_eq.1 m.gate.waiting

theorem tickets_eq : m.tickets = m.scene.tickets := by
  obtain ⟨queue, waiting⟩ := h.reachable.channel_empty h.unsent
  have inside : m.scene.inside.map Prod.fst = m.gate.ticket? := h.gate_eq.2
  rw [Scene.tickets, h.line_eq, inside]
  simp [tickets, entrants, queue, waiting, isQuiet_iff_turns.1 h.quiet]

theorem isPending_iff : m.isPending call ↔
    (∃ t ∈ m.scene.tickets, t.call = call) ∧ m.calls[call]? ≠ some .abandoned := by
  have orderly := h.reachable.orderly
  rw [← h.tickets_eq]
  constructor
  · intro waits
    have known := Machine.isPending_iff.1 waits
    obtain ⟨t, opened, rfl⟩ := orderly.opened call (List.getElem?_eq_some_iff.1 known).1
    refine ⟨⟨t, (orderly.waits t opened waits).resolve_right ?_, rfl⟩, by simp [known]⟩
    rintro ⟨command, text, mem⟩
    rw [isQuiet_iff_turns.1 h.quiet] at mem
    cases mem
  · rintro ⟨⟨t, mem, rfl⟩, still⟩
    exact (orderly.unanswered t mem).resolve_right fun gave => still gave.2

theorem scene_abandon (call : Nat) : (m.abandon call).scene = m.scene.giveUp call := by
  have held : m.scene.inside.any (fun y => y.1.call == call && y.1.seat == .caller) =
      m.gate.heldBy call := by
    have inside : m.scene.inside.map Prod.fst = m.gate.ticket? := h.gate_eq.2
    have same : m.gate.heldBy call =
        m.gate.ticket?.any fun t => t.call == call && t.seat == .caller := by
      cases holder : m.gate.holder <;> simp [Gate.heldBy, Gate.ticket?, holder]
    rw [same, ← inside, Option.any_map]
  have g := m.givesUp_abandon call
  generalize m.abandon call = m' at g
  cases g with
  | settled given =>
    refine (Scene.giveUp_of_none fun t mem same own => ?_).symm
    rw [← h.tickets_eq] at mem
    subst same
    exact given ((h.reachable.orderly.unanswered t mem).resolve_right fun gave => gave.1 own)
  | @handsOn t waits inside same own =>
    have leaves : (m.passOn.setProgress call .abandoned).scene = m.onward := scene_passOn inside
    have line : m.scene.line = m.gate.waiting ++ m.arrivals := by
      rw [h.line_eq, h.arrivals_eq, List.append_nil]
    rw [leaves, Scene.giveUp, held, Gate.heldBy_iff.2 ⟨t, inside, same, own⟩, if_pos rfl, onward,
      ← line]
  | withdraws waits outside =>
    rw [Scene.giveUp, held, if_neg outside, h.line_eq]
    have line : Gate.line (m.gate.withdraw call) = (m.gate.withdraw call).waiting :=
      h.gate_eq.1 _
    have nobody : arrivals { m with
        calls := m.calls.set call .abandoned
        gate := m.gate.withdraw call
        channel := m.channel.withdraw call } = [] := h.arrivals_eq
    rw [scene, nobody, List.append_nil]
    simp only [line]
    rfl

theorem scene_submit (stays : v.sends = false) :
    (m.submit v).scene = m.scene.move m.calls.length v := by
  obtain ⟨ready, deferred⟩ := isQuiet_iff.1 h.quiet
  have comes (t : Ticket) : ((m.openCall t).wake (.arrive t)).scene =
      { m.scene with line := m.scene.line ++ [t] } := by
    simp [scene, arrivals, turns, openCall, note, wake, ready, deferred, status, Note.running?,
      Turn.visitor?]
  cases v with
  | dispatch path command args =>
    cases path with
    | attached | detached => exact comes _
    | queued => cases stays
  | arrange state => exact comes _
  | release k =>
    rcases m.release_cases k with ⟨-, same⟩ | same
    · rw [submit, same]
      rfl
    · rw [submit, same, scene_wake rfl]
      rfl
  | abandon call => exact h.scene_abandon call

theorem submit (stays : v.sends = false) :
    Reachable d capacity (m.submit v) ∧ (m.submit v).Unsent := by
  have changes : Reaches m (m.submit v) := .single (.move v (timely_of_quiet h.quiet v))
  refine ⟨h.reachable.trans changes, ?_⟩
  have opens {t : Ticket} (other : t.seat ≠ .worker) : (m.openCall t).Unsent := fun u mem => by
    rcases List.mem_append.1 mem with mem | mem
    · exact h.unsent u mem
    · cases List.mem_singleton.1 mem
      exact other
  cases v with
  | dispatch path command args =>
    cases path with
    | attached | detached => exact opens nofun
    | queued => cases stays
  | arrange state => exact opens nofun
  | release k => exact h.reachable.unsent_later h.unsent changes (by rw [calls_submit m stays])
  | abandon call =>
    refine h.reachable.unsent_later h.unsent changes ?_
    rw [calls_submit m stays]
    dsimp only
    split
    · exact List.length_set
    · rfl

theorem move (stays : v.sends = false) : Rests d capacity (m.move v) := by
  obtain ⟨reachable, unsent⟩ := h.submit stays
  exact ⟨reachable.trans (reaches_settle _),
    reachable.unsent_later unsent (reaches_settle _) (length_settle _), isQuiet_move m v⟩

theorem scene_move (stays : v.sends = false) :
    (m.move v).scene = (m.scene.move m.calls.length v).settle d := by
  obtain ⟨reachable, unsent⟩ := h.submit stays
  rw [Machine.move, reachable.scene_settle unsent, h.scene_submit stays]

theorem clearHistory : Rests d capacity m.clearHistory :=
  ⟨h.reachable.tail .clearHistory, h.unsent, h.quiet⟩

theorem clearEvents : Rests d capacity m.clearEvents :=
  ⟨h.reachable.tail .clearEvents, h.unsent, h.quiet⟩

theorem refusedFrame : Rests d capacity (m.log [.undecodable]) := by
  refine ⟨h.reachable.tail .refusedFrame, fun t opened => ?_, h.quiet⟩
  exact h.unsent t (by simpa [log] using opened)

end Rests

theorem answered_iff (m : Machine) (call : Nat) :
    (∃ a, m.calls[call]? = some (.answered a)) ↔
      call < m.calls.length ∧ ¬ m.isPending call ∧ m.calls[call]? ≠ some .abandoned := by
  rw [Machine.isPending_iff]
  cases given : m.calls[call]? with
  | none => simpa using given
  | some p =>
    have inRange := (List.getElem?_eq_some_iff.1 given).1
    cases p <;> simp [inRange]

/-- Two machines stand at the same place, and the same callers gave up. -/
structure Agrees (m n : Machine) : Prop where
  scene : m.scene = n.scene
  length : m.calls.length = n.calls.length
  gaveUp : ∀ call : Nat, m.calls[call]? = some .abandoned ↔ n.calls[call]? = some .abandoned

namespace Agrees

variable {c c' : Nat} (agrees : Agrees m n) (h : Rests d c m) (h' : Rests e c' n)
include agrees h h'

theorem isPending : m.isPending call = n.isPending call := by
  rw [Bool.eq_iff_iff, h.isPending_iff, h'.isPending_iff, agrees.scene, Ne, Ne, agrees.gaveUp]

theorem answered : (∃ a, m.calls[call]? = some (.answered a)) ↔
    ∃ a, n.calls[call]? = some (.answered a) := by
  rw [answered_iff, answered_iff, agrees.length, agrees.isPending h h', Ne, Ne, agrees.gaveUp]

theorem calls_submit (stays : v.sends = false) :
    (m.submit v).calls.length = (n.submit v).calls.length ∧
      ∀ call : Nat, (m.submit v).calls[call]? = some .abandoned ↔
        (n.submit v).calls[call]? = some .abandoned := by
  have length := agrees.length
  have gaveUp := agrees.gaveUp
  rw [Machine.calls_submit m stays, Machine.calls_submit n stays]
  cases v with
  | dispatch | arrange =>
    refine ⟨by simp [length], fun call => ?_⟩
    rw [List.getElem?_append, List.getElem?_append, length]
    split
    · exact gaveUp call
    · exact .rfl
  | release => exact ⟨length, gaveUp⟩
  | abandon call =>
    dsimp only
    rw [agrees.isPending h h']
    split
    · refine ⟨by simp [length], fun other => ?_⟩
      rw [List.getElem?_set, List.getElem?_set, length]
      split
      · exact .rfl
      · exact gaveUp other
    · exact ⟨length, gaveUp⟩

theorem move (settles : Scene.settle e = Scene.settle d) (stays : v.sends = false) :
    Agrees (m.move v) (n.move v) := by
  have calls := agrees.calls_submit h h' stays
  have later (m : Machine) (call : Nat) : m.settle.calls[call]? = some .abandoned ↔
      m.calls[call]? = some .abandoned :=
    ⟨(Later.settle m).abandoned, fun gave => (Later.settle m).settled gave nofun⟩
  constructor
  case scene => rw [h.scene_move stays, h'.scene_move stays, settles, agrees.scene, agrees.length]
  case length => rw [Machine.move, Machine.move, length_settle, length_settle, calls.1]
  case gaveUp =>
    intro call
    rw [Machine.move, Machine.move, later, later, calls.2]

omit h h' in
theorem log (records records' : List LogRecord) : Agrees (m.log records) (n.log records') where
  scene := by rw [(scene_log ..).1, (scene_log ..).1, agrees.scene]
  length := agrees.length
  gaveUp := agrees.gaveUp

end Agrees

end Machine

end Lifecycle
