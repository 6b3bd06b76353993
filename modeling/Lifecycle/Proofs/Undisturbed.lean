import Lifecycle.Proofs.Entries
import Lifecycle.Proofs.Prescription
import Mathlib.Algebra.GroupWithZero.Nat

/-! A dispatch that nobody disturbs: nothing else is under way, nobody gives up and nothing breaks
down. Whatever way it comes, and however often its handler has to wait for permits, it leads to just
what is prescribed for the status that it finds. -/

namespace Lifecycle

def Dispatcher.after (d : Dispatcher) (e : Effect) : Dispatcher :=
  { d with
    status := e.status
    ledger := { d.ledger with
      history := d.ledger.history.append e.result
      calls := d.ledger.calls + 1 }
    telemetry := { d.telemetry with
      sink := (d.telemetry.sink.emit e.event).1
      calls := d.telemetry.calls + 1 } }

namespace Machine

def after (m : Machine) (call : Nat) (record : LogRecord) (outcome : Option Outcome) (e : Effect) :
    Machine :=
  { m with
    dispatcher := m.dispatcher.after e
    calls := m.calls.set call (.answered (.result e.result))
    journal := m.journal ++ .logged record :: .committed call outcome e.result e.status ::
      .appended call e.result :: .emitted call e.event ::
      (m.dispatcher.telemetry.sink.emit e.event).2.map .logged }

variable {m : Machine}

theorem decide_of_unbroken (unbroken : m.dispatcher.Unbroken) {call : Nat}
    (waits : m.isPending call) (command : Command) (outcome : Option Outcome)
    (decision : Decision) : m.decide call command m.state outcome decision =
      m.after call (decision.log command m.state) outcome (decision.effect command m.status) := by
  let e := decision.effect command m.status
  let committed := m.commit call command m.state outcome decision
  let whole := (committed.record call e.result e.event).1
  have recorded : whole = _ := congrArg Prod.fst
    (record_of_unbroken (m := committed) unbroken call e.result e.event)
  have same : committed.journal = m.journal ++ [.logged (decision.log command m.state)] ++
      [.committed call outcome e.result e.status] := rfl
  have told : whole.isPending call := by
    rw [recorded]
    exact waits
  calc m.decide call command m.state outcome decision
    _ = whole.setProgress call (.answered (.result e.result)) := if_pos told
    _ = m.after call (decision.log command m.state) outcome e := by
      rw [recorded, same, setProgress]
      simp only [List.append_assoc, List.singleton_append]
      rfl

end Machine

namespace Tableau

open Machine

variable {m : Machine} {call : Nat} {r : Run}

theorem advance_of_enough (unbroken : m.dispatcher.Unbroken) (waits : m.isPending call)
    (found : r.previous = m.state) (enough : r.permits ≤ m.permits) :
    let decision := r.outcome.decide r.command m.state r.fallback
    advance { base := m } call r = { base := { m.after call (decision.log r.command m.state)
      (some r.outcome) (decision.effect r.command m.status) with
        permits := m.permits - r.permits } } := by
  have ends := decide_of_unbroken (m := { m with permits := m.permits - r.permits }) unbroken
    waits r.command (some r.outcome) (r.outcome.decide r.command r.previous r.fallback)
  rw [advance, if_pos enough, ← found]
  rw [show state { m with permits := m.permits - r.permits } = r.previous from found.symm]
    at ends
  exact congrArg (fun m : Machine => ({ base := m } : Tableau)) ends

theorem settle_advance_release (unbroken : m.dispatcher.Unbroken) (waits : m.isPending call)
    (found : r.previous = m.state) (n : Nat) :
    (submit (advance { base := m } call r) (.release n)).settle =
      advance { base := { m with permits := m.permits + n } } call r := by
  by_cases enough : r.permits ≤ m.permits
  · have more : r.permits ≤ m.permits + n := Nat.le_add_right_of_le enough
    have left : m.permits + n - r.permits = m.permits - r.permits + n :=
      Nat.sub_add_comm enough
    have ends := advance_of_enough (m := { m with permits := m.permits + n }) unbroken
      waits found more
    rw [advance_of_enough unbroken waits found enough, ends]
    simp only [left]
    exact settle_of_empty rfl rfl
  · have part := advance_part (r := r)
      ({ base := { m with permits := m.permits + n } } : Tableau) call
      (Nat.le_of_not_le enough) (Nat.le_add_right m.permits n)
    have blocked : advance { base := m } call r = {
        base := { m with permits := 0 }
        inside := some (call, { r with permits := r.permits - m.permits }) } := if_neg enough
    have spent : m.permits + n - m.permits = 0 + n := by omega
    simp only [spent] at part
    rw [← part, blocked]
    rfl

theorem foldl_release (unbroken : m.dispatcher.Unbroken) (waits : m.isPending call)
    (found : r.previous = m.state) (ns : List Nat) :
    ns.foldl (fun x n => (x.submit (.release n)).settle) (advance { base := m } call r) =
      advance { base := { m with permits := m.permits + ns.sum } } call r := by
  induction ns generalizing m with
  | nil => rfl
  | cons n ns ih =>
    rw [List.foldl_cons, settle_advance_release unbroken waits found,
      ih (m := { m with permits := m.permits + n }) unbroken waits found, List.sum_cons,
      ← Nat.add_assoc]

theorem foldl_release_of_empty (m : Machine) (ns : List Nat) :
    ns.foldl (fun x n => (x.submit (.release n)).settle) ({ base := m } : Tableau) =
      { base := { m with permits := m.permits + ns.sum } } := by
  induction ns generalizing m with
  | nil => rfl
  | cons n ns ih =>
    have settled : (submit { base := m } (.release n)).settle =
        { base := { m with permits := m.permits + n } } := settle_of_empty rfl rfl
    rw [List.foldl_cons, settled, ih, List.sum_cons, ← Nat.add_assoc]

theorem foldl_release_letIn {command : Command} (args : Args) (ns : List Nat)
    (unbroken : m.dispatcher.Unbroken) (waits : m.isPending call)
    (enough : ∀ next handler, m.dispatcher.policy.Leads m.state command next →
      m.dispatcher.registry.handler? command = some handler →
      (handler.behaviour (m.runs command) ⟨command, m.state, args⟩).permits ≤
        m.permits + ns.sum) :
    ∃ outcome effect record news permits,
      Prescribed m.dispatcher m.status command outcome effect ∧
      (outcome = none ∧ news = [] ∨
        ∃ handler, m.dispatcher.registry.handler? command = some handler ∧
          outcome = some
            (handler.behaviour (m.runs command) ⟨command, m.state, args⟩).outcome ∧
          news = [.ran call ⟨command, m.state, args⟩ handler.observed]) ∧
      ns.foldl (fun x n => (x.submit (.release n)).settle)
          (letIn { base := m } call (.dispatch command args)) =
        { base := { after { m with journal := m.journal ++ news } call record outcome effect
          with permits } } := by
  cases prepared : m.dispatcher.prepare command with
  | error failure =>
    have decides : letIn { base := m } call (.dispatch command args) = {
        base := m.after call ((Decision.refuse failure).log command m.state) none
          ((Decision.refuse failure).effect command m.status) } := by
      simp only [letIn, prepared]
      rw [decide_of_unbroken unbroken waits]
    refine ⟨none, _, (Decision.refuse failure).log command m.state, [], m.permits + ns.sum,
      m.dispatcher.prescribed_of_refused prepared, .inl ⟨rfl, rfl⟩, ?_⟩
    rw [decides, foldl_release_of_empty, List.append_nil]
    rfl
  | ok leads =>
    obtain ⟨next, handler⟩ := leads
    let context : Context := ⟨command, m.state, args⟩
    let b := handler.behaviour (m.runs command) context
    let noted := m.note (.ran call context handler.observed)
    let r : Run := ⟨command, m.state, next, b.permits, b.outcome⟩
    have admits : m.dispatcher.Admits m.status command next := .of_prepare prepared
    have handles := Dispatcher.handler_of_prepare prepared
    have begins : letIn { base := m } call (.dispatch command args) =
        advance { base := noted } call r := by
      simp only [letIn, prepared]
      rfl
    have ends := advance_of_enough (m := { noted with permits := noted.permits + ns.sum }) (r := r)
      unbroken waits rfl (enough next handler admits.legal handles)
    refine ⟨some b.outcome, _, (b.outcome.decide command m.state next).log command m.state, _,
      m.permits + ns.sum - b.permits, admits.prescribes b.outcome,
      .inr ⟨handler, handles, rfl, rfl⟩, ?_⟩
    rw [begins, foldl_release (m := noted) unbroken waits rfl, ends]
    rfl

end Tableau

namespace Machine

variable {d : Dispatcher} {capacity : Nat} {m m' : Machine}

theorem Resting.releases (h : Resting d capacity m) (unbroken : d.Unbroken) (ns : List Nat) :
    Resting d capacity (m.run (ns.map .release)) ∧ (m.run (ns.map .release)).tableau =
      ns.foldl (fun x n => (x.submit (.release n)).settle) m.tableau := by
  induction ns generalizing m with
  | nil => exact ⟨h, rfl⟩
  | cons n ns ih =>
    obtain ⟨rests, there⟩ := h.move unbroken (v := .release n) rfl nofun
    obtain ⟨rests, goes⟩ := ih rests
    exact ⟨rests, goes.trans (by rw [there]; rfl)⟩

theorem Reachable.resting (h : Reachable d capacity m) (quiet : m.isQuiet)
    (free : m.gate.isFree) (kept : ∀ call : Nat, m.calls[call]? ≠ some .abandoned) :
    Resting d capacity m ∧ m.tableau = { base := m.bare } ∧ ¬ m.Sending := by
  have tickets := (h.tickets_eq_nil quiet free).1
  have turns := isQuiet_iff_turns.1 quiet
  have rests : Resting d capacity m := by
    refine ⟨⟨h, kept, ?_⟩, quiet⟩
    have channel : m.gate.ticket? = none ∧ m.gate.waiting = [] ∧ m.channel.queue = [] ∧
        m.channel.waiting = [] := by simpa [Machine.tickets, entrants, turns] using tickets
    exact ⟨channel.2.2.1, channel.2.2.2, by simp [passage, turns]⟩
  have nobody : m.gate.holder = none := by simpa [Gate.isFree] using free
  have apart : ¬ m.Sending := by
    rintro ⟨t, -, -, waits⟩
    exact h.nobody_waits quiet free t.call waits
  refine ⟨rests, ?_, apart⟩
  have arrivals : m.arrivals = [] := by rw [arrivals, turns, List.filterMap_nil]
  rw [tableau, rests.gate_tableau, arrivals]
  simp [Gate.inside?, Gate.line, nobody, h.attended.line free]

theorem Resting.isFree (h : Resting d capacity m) (nobody : m.tableau.inside = none) :
    m.gate.isFree := by
  cases held : m.gate.holder with
  | none => simp [Gate.isFree, held]
  | some holding =>
    obtain ⟨⟨r, run, -⟩, -⟩ := h.reachable.attended.blocked held (by simp [h.turns_eq])
    obtain ⟨t, stage⟩ := holding
    obtain rfl : stage = .running r := run
    rw [tableau, h.gate_tableau] at nobody
    simp [Gate.inside?, held] at nobody

def begun (m : Machine) : List (Nat × Context) := m.journal.filterMap Note.running?

/-- What comes of a machine by one dispatch, given how its handler ended if one ran. -/
structure Serves (m m' : Machine) (command : Command) (args : Args) (outcome : Option Outcome)
    (effect : Effect) : Prop where
  prescribed : Prescribed m.dispatcher m.status command outcome effect
  /-- A handler runs once, with just what it has to know, or not at all. -/
  runs : outcome = none ∧ m'.begun = m.begun ∨
    ∃ handler, m.dispatcher.registry.handler? command = some handler ∧
      outcome = some (handler.behaviour (m.runs command) ⟨command, m.state, args⟩).outcome ∧
      m'.begun = m.begun ++ [(m.calls.length, ⟨command, m.state, args⟩)]
  told : m'.calls = m.calls ++ [.answered (.result effect.result)]
  dispatcher : m'.dispatcher = m.dispatcher.after effect
  published : m'.journal.filterMap Note.status? =
    m.journal.filterMap Note.status? ++ [effect.status]
  appended : m'.appended = m.appended ++ [effect.result]
  emitted : m'.emitted = m.emitted ++ [effect.event]
  rests : m'.isQuiet ∧ m'.gate.isFree

theorem serves_of_bare {command : Command} {args : Args} {outcome : Option Outcome}
    {effect : Effect} {record : LogRecord} {news : List Note} {permits : Nat}
    (prescribed : Prescribed m.dispatcher m.status command outcome effect)
    (ran : outcome = none ∧ news = [] ∨
      ∃ handler, m.dispatcher.registry.handler? command = some handler ∧
        outcome = some (handler.behaviour (m.runs command) ⟨command, m.state, args⟩).outcome ∧
        news = [.ran m.calls.length ⟨command, m.state, args⟩ handler.observed])
    (bare : m'.bare = { after { m.bare with
      calls := m.bare.calls ++ [.pending]
      journal := m.bare.journal ++ news } m.calls.length record outcome effect with permits })
    (rests : m'.isQuiet ∧ m'.gate.isFree) : Serves m m' command args outcome effect := by
  let noted : List Note := .logged record ::
    .committed m.calls.length outcome effect.result effect.status ::
    .appended m.calls.length effect.result :: .emitted m.calls.length effect.event ::
    (m.dispatcher.telemetry.sink.emit effect.event).2.map .logged
  have journal : m'.journal.filter Note.isInner = m.journal.filter Note.isInner ++ news ++ noted :=
    congrArg Machine.journal bare
  have view {α : Type} {f : Note → Option α} (inner : ∀ n, n.isInner = false → f n = none) :
      m'.journal.filterMap f = m.journal.filterMap f ++ news.filterMap f ++ noted.filterMap f := by
    rw [← filterMap_inner inner m'.journal, ← filterMap_inner inner m.journal, journal,
      List.filterMap_append, List.filterMap_append]
  have silent {α : Type} {f : Note → Option α} (none : ∀ r, f (.logged r) = none) :
      ((m.dispatcher.telemetry.sink.emit effect.event).2.map Note.logged).filterMap f = [] := by
    simp [List.filterMap_map, none]
  have still {α : Type} {f : Note → Option α} (none : ∀ call context observed,
      f (.ran call context observed) = none) : news.filterMap f = [] := by
    rcases ran with ⟨-, rfl⟩ | ⟨handler, -, -, rfl⟩
    · rfl
    · simp [none]
  constructor
  case prescribed => exact prescribed
  case runs =>
    have begun : m'.begun = m.begun ++ news.filterMap Note.running? := by
      have same : noted.filterMap Note.running? = [] := silent fun _ => rfl
      rw [Machine.begun, view (by rintro ⟨⟩ ⟨⟩ <;> rfl), same, List.append_nil]
      rfl
    rcases ran with ⟨rfl, rfl⟩ | ⟨handler, handles, ended, rfl⟩
    · exact .inl ⟨rfl, begun.trans (List.append_nil _)⟩
    · exact .inr ⟨handler, handles, ended, begun⟩
  case told =>
    have calls : m'.calls = (m.calls ++ [Progress.pending]).set m.calls.length _ :=
      congrArg Machine.calls bare
    rw [calls, List.set_append_right _ _ (Nat.le_refl _), Nat.sub_self]
    rfl
  case dispatcher => exact congrArg Machine.dispatcher bare
  case published =>
    have same : noted.filterMap Note.status? = [effect.status] :=
      congrArg (effect.status :: ·) (silent fun _ => rfl)
    rw [view (by rintro ⟨⟩ ⟨⟩ <;> rfl), same, still fun _ _ _ => rfl, List.append_nil]
  case appended =>
    have same : noted.filterMap Note.appended? = [effect.result] :=
      congrArg (effect.result :: ·) (silent fun _ => rfl)
    rw [Machine.appended, view (by rintro ⟨⟩ ⟨⟩ <;> rfl), same, still fun _ _ _ => rfl,
      List.append_nil]
    rfl
  case emitted =>
    have same : noted.filterMap Note.emitted? = [effect.event] :=
      congrArg (effect.event :: ·) (silent fun _ => rfl)
    rw [Machine.emitted, view (by rintro ⟨⟩ ⟨⟩ <;> rfl), same, still fun _ _ _ => rfl,
      List.append_nil]
    rfl
  case rests => exact rests

/-- A dispatch that comes when nothing else is under way leads to just what is prescribed for the
status that it finds, as soon as its handler has its permits. -/
theorem dispatch_does_as_prescribed (unbroken : d.Unbroken) (h : Reachable d capacity m)
    (quiet : m.isQuiet) (free : m.gate.isFree)
    (kept : ∀ call : Nat, m.calls[call]? ≠ some .abandoned) (path : Path) (command : Command)
    (args : Args) (ns : List Nat)
    (enough : ∀ next handler, m.dispatcher.policy.Leads m.state command next →
      m.dispatcher.registry.handler? command = some handler →
      (handler.behaviour (m.runs command) ⟨command, m.state, args⟩).permits ≤
        m.permits + ns.sum) :
    ∃ outcome effect, Serves m (m.run (.dispatch path command args :: ns.map .release)) command
      args outcome effect := by
  obtain ⟨rests, there, apart⟩ := h.resting quiet free kept
  let base : Machine := { m.bare with calls := m.bare.calls ++ [.pending] }
  have waits : base.isPending m.calls.length := by simp [base, isPending, bare]
  have runs : base.runs command = m.runs command := runs_bare m command
  obtain ⟨outcome, effect, record, news, permits, prescribed, ran, leads⟩ :=
    Tableau.foldl_release_letIn (m := base) args ns (h.unbroken unbroken) waits
      fun next handler legal handles => runs ▸ enough next handler legal handles
  obtain ⟨rests', there'⟩ := rests.move unbroken (v := .dispatch path command args) rfl
    fun _ => apart
  obtain ⟨rests', goes⟩ := rests'.releases unbroken ns
  let m' := m.run (.dispatch path command args :: ns.map .release)
  have comes : (Tableau.submit { base := m.bare } (.dispatch path command args)).settle =
      [].foldl Tableau.come (Tableau.letIn { base } m.calls.length (.dispatch command args)) :=
    Tableau.settle_cons (y := (m.calls.length, .dispatch command args)) rfl rfl
  have final : m'.tableau = { base := { after { base with journal := base.journal ++ news }
      m.calls.length record outcome effect with permits } } := by
    refine goes.trans ?_
    rw [there', there, comes]
    exact leads
  have bare : m'.bare = m'.tableau.base := (Resting.base_eq rests').symm
  rw [final] at bare
  have free : m'.gate.isFree := Resting.isFree rests' (by rw [final])
  exact ⟨outcome, effect, serves_of_bare prescribed (runs ▸ ran) bare ⟨rests'.quiet, free⟩⟩

/-- A paused component is resumed by a request, whose handler waits for its permit. -/
theorem resume_does_as_prescribed :
    ∃ m m' outcome effect, Reachable .patient 1 m ∧ m.state = .paused ∧
      Serves m m' .resume .empty outcome effect ∧ m'.status = ⟨.active, none⟩ := by
  have reachable := reachable_run .patient 1 [.arrange .paused]
  have kept : ∀ call : Nat,
      ((start .patient 1).run [.arrange .paused]).calls[call]? ≠ some .abandoned
    | 0 | _ + 1 => nofun
  obtain ⟨outcome, effect, serves⟩ := dispatch_does_as_prescribed ⟨fun _ => rfl, fun _ => rfl⟩
    reachable (isQuiet_run .patient 1 [.arrange .paused]) rfl kept .queued .resume .empty [0, 1]
    (fun _ _ _ handles => by
      cases handles
      exact Nat.le_refl 1)
  refine ⟨_, _, outcome, effect, reachable, ?_, serves, ?_⟩ <;> rfl

end Machine

end Lifecycle
