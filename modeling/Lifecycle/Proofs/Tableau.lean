import Lifecycle.Proofs.Agreement

/-! Where things stand with all that is published, recorded and told, but without the ways by which
anybody came. If nothing breaks down and nobody gives up, then whoever comes to the gate is served
in its turn, up to its records and its answer, until a handler lacks permits; and every turn of a
machine with an empty channel keeps to it. -/

namespace Lifecycle

namespace Machine

/-- A machine without gate, channel and turns, and with the notes only of what goes on in the
gate. -/
def bare (m : Machine) : Machine where
  dispatcher := m.dispatcher
  channel := .withCapacity 0
  permits := m.permits
  calls := m.calls
  journal := m.journal.filter Note.isInner

def deliver (m : Machine) (call : Nat) (r : Result) (e : Event) : Machine :=
  (m.record call r e).1.answer call (.result r)

def decide (m : Machine) (call : Nat) (command : Command) (previous : State)
    (outcome : Option Outcome) (decision : Decision) : Machine :=
  (m.commit call command previous outcome decision).deliver call
    (decision.result command previous) (decision.event command previous)

def force (m : Machine) (call : Nat) (state : State) : Machine :=
  let m := m.log [.arranged state]
  let m := m.setStatus (m.status.arrange state)
  (m.note (.arranged call m.status)).answer call (.arranged state)

end Machine

def Ticket.entry (t : Ticket) : Nat × Work := (t.call, t.work)

/-- What is published, recorded and told, the run inside that lacks permits, and what is served
after it. -/
structure Tableau where
  base : Machine
  inside : Option (Nat × Run) := none
  line : List (Nat × Work) := []

namespace Tableau

def advance (x : Tableau) (call : Nat) (r : Run) : Tableau :=
  if r.permits ≤ x.base.permits then
    let paid : Machine := { x.base with permits := x.base.permits - r.permits }
    { x with
      base := paid.decide call r.command r.previous (some r.outcome)
        (r.outcome.decide r.command r.previous r.fallback) }
  else { x with
    base := { x.base with permits := 0 }
    inside := some (call, { r with permits := r.permits - x.base.permits }) }

def letIn (x : Tableau) (call : Nat) : Work → Tableau
  | .arrange state => { x with base := x.base.force call state }
  | .dispatch command args =>
    match x.base.dispatcher.prepare command with
    | .error failure =>
      { x with base := x.base.decide call command x.base.state none (.refuse failure) }
    | .ok (fallback, handler) =>
      let context : Context := ⟨command, x.base.state, args⟩
      let b := handler.behaviour (x.base.runs command) context
      { x with base := x.base.note (.ran call context handler.observed) }.advance call
        ⟨command, context.state, fallback, b.permits, b.outcome⟩

def come (x : Tableau) (y : Nat × Work) : Tableau :=
  if x.inside.isSome then { x with line := x.line ++ [y] } else x.letIn y.1 y.2

def cleared (x : Tableau) : Tableau := { base := x.base }

def settle (x : Tableau) : Tableau :=
  x.line.foldl come (match x.inside with
    | none => x.cleared
    | some (call, r) => x.cleared.advance call r)

variable {x : Tableau} {call : Nat} {r : Run}

theorem advance_part (x : Tableau) (call : Nat) {got : Nat} (needs : got ≤ r.permits)
    (there : got ≤ x.base.permits) :
    advance { x with base := { x.base with permits := x.base.permits - got } } call
        { r with permits := r.permits - got } = x.advance call r := by
  unfold advance
  by_cases enough : r.permits ≤ x.base.permits
  · rw [if_pos enough, if_pos (Nat.sub_le_sub_right enough got)]
    have rest : x.base.permits - got - (r.permits - got) = x.base.permits - r.permits := by omega
    simp only [rest]
  · have few : ¬ r.permits - got ≤ x.base.permits - got := by omega
    rw [if_neg enough, if_neg few]
    have lacks : r.permits - got - (x.base.permits - got) = r.permits - x.base.permits := by omega
    simp only [lacks]

theorem foldl_come_of_blocked (blocked : x.inside.isSome) (ys : List (Nat × Work)) :
    ys.foldl come x = { x with line := x.line ++ ys } := by
  induction ys generalizing x with
  | nil => rw [List.foldl_nil, List.append_nil]
  | cons y ys ih =>
    have comes : x.come y = { x with line := x.line ++ [y] } := if_pos blocked
    rw [List.foldl_cons, comes, ih (x := { x with line := x.line ++ [y] }) blocked,
      List.append_assoc, List.singleton_append]

theorem settle_of_blocked (blocked : x.inside = some (call, r)) (none : x.base.permits = 0)
    (lacks : 0 < r.permits) : x.settle = x := by
  obtain ⟨base, inside, line⟩ := x
  obtain rfl : inside = some (call, r) := blocked
  have none : base.permits = 0 := none
  have stays : advance ⟨base, .none, []⟩ call r = ⟨base, some (call, r), []⟩ := by
    rw [advance, if_neg (by dsimp only; omega)]
    simp only [none, Nat.sub_zero]
    rw [← none]
  simp only [settle, cleared, stays]
  rw [foldl_come_of_blocked rfl, List.nil_append]

theorem settle_of_empty (nobody : x.inside = none) (empty : x.line = []) : x.settle = x := by
  obtain ⟨base, inside, line⟩ := x
  obtain rfl : inside = none := nobody
  obtain rfl : line = [] := empty
  rfl

theorem settle_cons (nobody : x.inside = none) {y : Nat × Work} {ys : List (Nat × Work)}
    (line : x.line = y :: ys) : x.settle = ys.foldl come (x.cleared.letIn y.1 y.2) := by
  simp only [settle, nobody, line, List.foldl_cons]
  rfl

end Tableau

/-- What stands at a gate, where a decision that is published counts as recorded and told. -/
def Gate.tableau (g : Gate) (base : Machine) (arrivals : List Ticket) : Tableau where
  base := match g.holder with
    | some ⟨t, .published r e⟩ => base.deliver t.call r e
    | _ => base
  inside := g.inside?.map fun x => (x.1.call, x.2)
  line := (g.line ++ arrivals).map Ticket.entry

theorem Gate.tableau_leave (g : Gate) (base : Machine) (arrivals : List Ticket) :
    g.leave.tableau base arrivals = ⟨base, none, (g.waiting ++ arrivals).map Ticket.entry⟩ := by
  obtain ⟨holder, waiting⟩ := g
  cases waiting <;> rfl

namespace Machine

def tableau (m : Machine) : Tableau := m.gate.tableau m.bare m.arrivals

def rest (m : Machine) (base : Machine) : Tableau :=
  ⟨base, none, (m.gate.waiting ++ m.arrivals).map Ticket.entry⟩

variable {m n : Machine} {t : Ticket}

theorem bare_note (m : Machine) {n : Note} (inner : n.isInner) :
    (m.note n).bare = m.bare.note n := by
  simp [bare, note, inner]

theorem bare_log (m : Machine) (records : List LogRecord) :
    (m.log records).bare = m.bare.log records := by
  simp [bare, log, List.filter_map, Function.comp_def, Note.isInner]

theorem bare_answer (m : Machine) (call : Nat) (a : Answer) :
    (m.answer call a).bare = m.bare.answer call a := by
  have same : m.bare.isPending call = m.isPending call := rfl
  unfold answer
  rw [same]
  split <;> rfl

theorem record_of_unbroken (unbroken : m.dispatcher.Unbroken) (call : Nat) (r : Result)
    (e : Event) :
    let ledger := m.dispatcher.ledger
    let telemetry := m.dispatcher.telemetry
    m.record call r e = ({ m with
      dispatcher := { m.dispatcher with
        ledger := { ledger with history := ledger.history.append r, calls := ledger.calls + 1 }
        telemetry := { telemetry with
          sink := (telemetry.sink.emit e).1, calls := telemetry.calls + 1 } }
      journal := m.journal ++ .appended call r :: .emitted call e ::
        (telemetry.sink.emit e).2.map .logged }, .done (.result r)) := by
  obtain ⟨ledger, telemetry, news, ending, same, records⟩ := m.record_eq call r e
  rw [same]
  cases records with
  | all => rfl
  | noResult breaks => cases (unbroken.1 _).symm.trans breaks
  | noEvent breaks => cases (unbroken.2 _).symm.trans breaks

theorem bare_record (unbroken : m.dispatcher.Unbroken) (call : Nat) (r : Result) (e : Event) :
    (m.record call r e).1.bare = (m.bare.record call r e).1 := by
  rw [record_of_unbroken unbroken, record_of_unbroken (m := m.bare) unbroken]
  simp [bare, Note.isInner]

theorem bare_commit (m : Machine) (call : Nat) (command : Command) (previous : State)
    (outcome : Option Outcome) (decision : Decision) :
    (m.commit call command previous outcome decision).bare =
      m.bare.commit call command previous outcome decision := by
  simp [commit, bare, note, log, setStatus, status, Note.isInner]

theorem bare_passOn (inside : m.gate.ticket? = some t) : m.passOn.bare = m.bare := by
  cases line : m.gate.waiting with
  | nil =>
    rw [passOn_of_nil inside line]
    simp [bare, Note.isInner]
  | cons u us =>
    rw [passOn_of_cons inside line]
    simp [bare, Note.isInner]

theorem runs_bare (m : Machine) (command : Command) : m.bare.runs command = m.runs command := by
  rw [runs, bare, List.countP_filter]
  refine List.countP_congr fun n _ => ?_
  cases n <;> simp [Note.isRunOf, Note.isInner]

section turns

variable {turn : Turn} (other : turn.visitor? = none)
include other

theorem tableau_wake : (m.wake turn).tableau = m.tableau := by
  simp [tableau, bare, arrivals, turns, wake, other]

theorem tableau_resume : (m.resume turn).tableau = m.tableau := by
  simp [tableau, bare, arrivals, turns, resume, other]

theorem tableau_putOff : (m.putOff turn).tableau = m.tableau := by
  simp [tableau, bare, arrivals, turns, putOff, other]

end turns

theorem tableau_told (inside : m.gate.ticket? = some t) (call : Nat) (a : Answer) :
    (m.passOn.answer call a).tableau = m.rest (m.bare.answer call a) := by
  have told : (m.passOn.answer call a).bare = m.bare.answer call a := by
    rw [bare_answer, bare_passOn inside]
  have left : m.passOn.gate = m.gate.leave ∧ m.passOn.arrivals = m.arrivals := by
    cases line : m.gate.waiting with
    | nil =>
      rw [passOn_of_nil inside line]
      simp [Gate.leave, line, arrivals, turns]
    | cons u us =>
      rw [passOn_of_cons inside line]
      simp [Gate.leave, line, arrivals, turns, List.filterMap_cons, Turn.visitor?]
  obtain ⟨calls, same, -⟩ := m.passOn.answer_eq call a
  have gate : (m.passOn.answer call a).gate = m.gate.leave := by rw [same, ← left.1]
  have arrivals : (m.passOn.answer call a).arrivals = m.arrivals := by
    rw [same, ← left.2]
    rfl
  rw [tableau, told, gate, arrivals, Gate.tableau_leave]
  rfl

section waits

variable (waits : m.isPending t.call)
include waits

theorem tableau_conclude (inside : m.gate.ticket? = some t) (command : Command) (a : Answer)
    (share : Nat) :
    (m.conclude t command (.done a) share).tableau = m.rest (m.bare.answer t.call a) := by
  have still : m.passOn.isPending t.call := by rwa [isPending, calls_passOn]
  have told := tableau_told inside t.call a
  cases seat : t.seat with
  | caller | task =>
    simp only [conclude, seat]
    exact told
  | worker =>
    simp only [conclude, seat, still, if_pos]
    rw [tableau_resume rfl, told]

variable (unbroken : m.dispatcher.Unbroken)
include unbroken

theorem tableau_wrapUp (inside : m.gate.ticket? = some t) (r : Result) (e : Event) (share : Nat) :
    (m.wrapUp t r e share).tableau = m.rest (m.bare.deliver t.call r e) := by
  unfold wrapUp
  split
  · rw [tableau_putOff rfl]
    rfl
  · have recorded := record_of_unbroken unbroken t.call r e
    have bares := bare_record unbroken t.call r e
    have ends : (m.record t.call r e).2 = .done (.result r) := congrArg Prod.snd recorded
    have gate : (m.record t.call r e).1.gate = m.gate := by rw [recorded]
    have calls : (m.record t.call r e).1.calls = m.calls := by rw [recorded]
    have line : (m.record t.call r e).1.arrivals = m.arrivals := by
      rw [recorded]
      rfl
    have waits' : (m.record t.call r e).1.isPending t.call := by rwa [isPending, calls]
    dsimp only
    rw [ends, tableau_conclude waits' (gate ▸ inside), bares, rest, gate, line]
    rfl

theorem tableau_finish (inside : m.gate.ticket? = some t) (command : Command) (previous : State)
    (outcome : Option Outcome) (decision : Decision) (share : Nat) :
    (m.finish t command previous outcome decision share).tableau =
      m.rest (m.bare.decide t.call command previous outcome decision) := by
  rw [finish, tableau_wrapUp (by exact waits) (by exact unbroken) (by exact inside), bare_commit]
  rfl

/-- A run that takes permits goes where it would go if it took all that it can at once, whether it
ends, is put off or is blocked. -/
theorem settle_tableau_advance (r : Run) (share : Nat) : (m.advance t r share).tableau.settle =
    { m.rest m.bare with inside := some (t.call, r) }.settle := by
  have needs : min (min r.permits m.permits) share ≤ r.permits :=
    Nat.le_trans (Nat.min_le_left ..) (Nat.min_le_left ..)
  have there : min (min r.permits m.permits) share ≤ m.permits :=
    Nat.le_trans (Nat.min_le_left ..) (Nat.min_le_right ..)
  unfold advance
  generalize min (min r.permits m.permits) share = got at needs there
  have stays : { m with
      permits := m.permits - got
      gate := { m.gate with
        holder := some ⟨t, .running { r with permits := r.permits - got }⟩ } }.tableau.settle =
      { m.rest m.bare with inside := some (t.call, r) }.settle := by
    have part := Tableau.advance_part { base := m.bare } t.call needs there
    exact congrArg (((m.gate.waiting ++ m.arrivals).map Ticket.entry).foldl Tableau.come) part
  dsimp only
  split
  · next all =>
    subst all
    rw [tableau_finish (by exact waits) (by exact unbroken) rfl]
    have ends : Tableau.advance { base := m.bare } t.call r = _ := if_pos there
    exact congrArg (((m.gate.waiting ++ m.arrivals).map Ticket.entry).foldl Tableau.come) ends.symm
  · split
    · rw [tableau_putOff rfl, stays]
    · exact stays

theorem settle_tableau_begin (held : m.gate.holder = some ⟨t, .admitted⟩) (share : Nat) :
    (m.begin t share).tableau.settle = m.tableau.settle := by
  have inside : m.gate.ticket? = some t := Gate.ticket?_eq_some.2 ⟨_, held⟩
  have served : m.tableau.settle = ((m.gate.waiting ++ m.arrivals).map Ticket.entry).foldl
      Tableau.come (Tableau.letIn { base := m.bare } t.call t.work) := by
    have base : m.tableau.base = m.bare := by simp [tableau, Gate.tableau, held]
    rw [Tableau.settle_cons (y := t.entry), Tableau.cleared, base]
    · rfl
    · simp [tableau, Gate.tableau, Gate.inside?, held]
    · simp [tableau, Gate.tableau, Gate.line, held]
  rw [served]
  cases work : t.work with
  | arrange state =>
    have forces : (((m.log [.arranged state]).setStatus (m.status.arrange state)).note
        (.arranged t.call (m.status.arrange state))).bare =
          ((m.bare.log [.arranged state]).setStatus (m.status.arrange state)).note
            (.arranged t.call (m.status.arrange state)) := by
      rw [bare_note _ rfl, ← bare_log]
      rfl
    have told := tableau_told (m := ((m.log [.arranged state]).setStatus
      (m.status.arrange state)).note (.arranged t.call (m.status.arrange state))) (t := t)
      (by exact inside) t.call (.arranged state)
    rw [forces] at told
    simp only [begin, work]
    exact congrArg Tableau.settle told
  | dispatch command args =>
    cases prepared : m.dispatcher.prepare command with
    | error failure =>
      have refuses : Tableau.letIn { base := m.bare } t.call (.dispatch command args) =
          { base := m.bare.decide t.call command m.state none (.refuse failure) } := by
        have prepared : m.bare.dispatcher.prepare command = .error failure := prepared
        simp only [Tableau.letIn, prepared]
        rfl
      simp only [begin, work, prepared]
      rw [tableau_finish waits unbroken inside, refuses]
      rfl
    | ok found =>
      obtain ⟨fallback, handler⟩ := found
      have prepared' : m.bare.dispatcher.prepare command = .ok (fallback, handler) := prepared
      simp only [begin, work, prepared]
      rw [settle_tableau_advance (by exact waits) (by exact unbroken)]
      simp only [Tableau.letIn, prepared', runs_bare]
      rw [bare_note _ rfl]
      rfl

theorem settle_tableau_proceed (share : Nat) (held : m.gate.ticket? = some t) :
    (m.proceed share).tableau.settle = m.tableau.settle := by
  obtain ⟨stage, held⟩ := Gate.ticket?_eq_some.1 held
  unfold proceed
  rw [held]
  cases stage with
  | admitted => exact settle_tableau_begin waits unbroken held share
  | running r =>
    refine (settle_tableau_advance waits unbroken r share).trans ?_
    simp [rest, tableau, Gate.tableau, Gate.inside?, Gate.line, held]
  | published r e =>
    have inside : m.gate.ticket? = some t := Gate.ticket?_eq_some.2 ⟨_, held⟩
    dsimp only
    rw [tableau_wrapUp waits unbroken inside]
    simp [rest, tableau, Gate.tableau, Gate.inside?, Gate.line, held]

end waits

theorem tableau_arrive (h : m.Attended) (t : Ticket) (share : Nat) :
    (m.arrive t (share + 1)).tableau =
      { m.tableau with line := (m.gate.line ++ t :: m.arrivals).map Ticket.entry } := by
  cases held : m.gate.holder with
  | none =>
    have nobody : m.gate.waiting = [] := h.line (by simp [Gate.isFree, held])
    rw [arrive_of_free held]
    simp [tableau, Gate.tableau, bare, arrivals, turns, Gate.inside?, Gate.line, held, nobody,
      Note.isInner, List.filterMap_cons, Turn.visitor?]
  | some holding =>
    rw [arrive_of_held held]
    obtain ⟨u, _ | _ | _⟩ := holding <;>
      simp [tableau, Gate.tableau, bare, arrivals, turns, Gate.inside?, Gate.line, held]

end Machine

end Lifecycle
