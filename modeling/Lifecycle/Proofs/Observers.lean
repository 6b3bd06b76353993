import Lifecycle.Proofs.Agreement

/-! Observers never steer. Two dispatchers that differ only in what records their outcomes do the
same for everybody else. As long as neither breaks down they go in step, turn by turn, and all
callers are told the same. If records break down, whoever comes by other ways than the channel still
leaves the same status and has the same handlers run. -/

namespace Lifecycle

namespace Session

open Machine

def Step.sends : Step → Bool
  | .dispatch .channel .. => true
  | _ => false

def Step.looks : Step → Bool
  | .history | .historyLength | .events | .logs => true
  | _ => false

/-- What everybody hears who does not look at what was recorded, and the status after each step. -/
def heard (s : Session) (steps : List Step) : List (Option Report × Status) :=
  List.zipWith (fun step x => (if step.looks then none else some x.1, x.2)) steps (s.run steps)

theorem heard_cons (s : Session) (step : Step) (steps : List Step) :
    s.heard (step :: steps) = (if step.looks then none else some (s.take step).2,
      (s.take step).1.machine.status) :: (s.take step).1.heard steps := rfl

/-- A relation between machines that lasts whatever sessions do to both of them. Only where that is
allowed do they send anything through the channel. -/
structure Bond (allowed : Prop) (R : Machine → Machine → Prop) : Prop where
  length : ∀ {m n}, R m n → m.calls.length = n.calls.length
  answered : ∀ {m n}, R m n → ∀ call : Nat, (∃ a, m.calls[call]? = some (.answered a)) ↔
    ∃ a, n.calls[call]? = some (.answered a)
  move : ∀ {m n}, R m n → ∀ v : Move, (v.sends → allowed) → R (m.move v) (n.move v)
  refusedFrame : ∀ {m n}, R m n → R (m.log [.undecodable]) (n.log [.undecodable])
  clearLeft : ∀ {m n}, R m n → R m.clearHistory n
  clearRight : ∀ {m n}, R m n → R m n.clearHistory
  clearEvents : ∀ {m n}, R m n → R m.clearEvents n.clearEvents

structure Alongside (R : Machine → Machine → Prop) (s s' : Session) : Prop where
  machine : R s.machine s'.machine
  opened : s.opened = s'.opened

namespace Alongside

variable {allowed : Prop} {R : Machine → Machine → Prop} {s s' : Session}
  (h : Alongside R s s')
include h

theorem find?_eq (id : String) : s.find? id = s'.find? id := by rw [find?, find?, h.opened]

theorem forget (id : String) : Alongside R (s.forget id) (s'.forget id) :=
  { h with opened := by rw [Session.forget, Session.forget, h.opened] }

variable (bond : Bond allowed R)
include bond

theorem told_both (call : Nat) :
    (∃ a b, s.machine.calls[call]? = some (.answered a) ∧
      s'.machine.calls[call]? = some (.answered b)) ∨
    (∀ a, s.machine.calls[call]? ≠ some (.answered a)) ∧
      ∀ b, s'.machine.calls[call]? ≠ some (.answered b) := by
  have answered := bond.answered h.machine call
  by_cases told : ∃ a, s.machine.calls[call]? = some (.answered a)
  · obtain ⟨a, told⟩ := told
    obtain ⟨b, told'⟩ := answered.1 ⟨a, told⟩
    exact .inl ⟨a, b, told, told'⟩
  · exact .inr ⟨fun a told' => told ⟨a, told'⟩, fun b told' => told (answered.2 ⟨b, told'⟩)⟩

theorem settleCall (id : String) (o : OpenCall) (r r' : Report) :
    Alongside R (s.settleCall id o r).1 (s'.settleCall id o r').1 := by
  unfold Session.settleCall
  rcases h.told_both bond o.call with ⟨a, b, told, told'⟩ | ⟨waits, waits'⟩
  · rw [told, told']
    exact h.forget id
  · split
    · next a told => exact absurd told (waits a)
    · exact h

theorem move {v : Move} (fits : v.sends → allowed) : Alongside R
    { s with machine := s.machine.move v } { s' with machine := s'.machine.move v } :=
  ⟨bond.move h.machine v fits, h.opened⟩

theorem opening (id : String) (frame : Option (Codec × String)) {v : Move}
    (fits : v.sends → allowed) :
    Alongside R (s.opening id frame v).1 (s'.opening id frame v).1 := by
  have moved := (h.forget id).move bond fits
  have length := bond.length h.machine
  have opens : Alongside R (s.withOpened id frame v) (s'.withOpened id frame v) := by
    refine ⟨moved.machine, ?_⟩
    rw [withOpened, withOpened, length]
    exact congrArg (_ :: ·) moved.opened
  rw [opening_eq, opening_eq, length]
  exact opens.settleCall bond ..

theorem take {step : Step} (fits : step.sends → allowed) :
    Alongside R (s.take step).1 (s'.take step).1 := by
  cases step with
  | dispatch entry command args id =>
    unfold Session.take
    dsimp only
    split
    · exact h
    · refine h.opening bond id none fun sends => fits ?_
      cases entry <;> exact sends
  | frame codec bytes id =>
    unfold Session.take
    dsimp only
    split
    · exact h.opening bond id _ nofun
    · exact ⟨bond.refusedFrame h.machine, (h.forget id).opened⟩
    · exact h.forget id
  | setState state id => exact h.opening bond id none nofun
  | join id =>
    unfold Session.take
    dsimp only
    rw [← h.find?_eq id]
    split
    · exact h
    · exact h.settleCall bond ..
  | abandon id =>
    unfold Session.take
    dsimp only
    rw [← h.find?_eq id]
    split
    · exact h
    · next o _ =>
      rcases h.told_both bond o.call with ⟨a, b, told, told'⟩ | ⟨waits, waits'⟩
      · rw [told, told']
        exact h.forget id
      · split
        · next a told => exact absurd told (waits a)
        · exact (h.forget id).move bond nofun
  | release n => exact h.move bond nofun
  | clearHistory =>
    unfold Session.take
    dsimp only
    split <;> split
    · exact ⟨bond.clearRight (bond.clearLeft h.machine), h.opened⟩
    · exact ⟨bond.clearLeft h.machine, h.opened⟩
    · exact ⟨bond.clearRight h.machine, h.opened⟩
    · exact h
  | clearEvents => exact ⟨bond.clearEvents h.machine, h.opened⟩
  | events =>
    unfold Session.take
    dsimp only
    split <;> split <;> exact h
  | calls | logs => exact ⟨h.machine, h.opened⟩
  | _ => exact h

theorem after {steps : List Step} (fits : ∀ step ∈ steps, step.sends → allowed) :
    Alongside R (s.after steps) (s'.after steps) := by
  induction steps generalizing s s' with
  | nil => exact h
  | cons step steps ih =>
    exact ih (h.take bond (fits step List.mem_cons_self))
      fun next mem => fits next (List.mem_cons_of_mem step mem)

theorem statuses_eq (status : ∀ {m n}, R m n → m.status = n.status) {steps : List Step}
    (fits : ∀ step ∈ steps, step.sends → allowed) :
    (s.run steps).map Prod.snd = (s'.run steps).map Prod.snd := by
  induction steps generalizing s s' with
  | nil => rfl
  | cons step steps ih =>
    have next := h.take bond (fits step List.mem_cons_self)
    have later := ih next fun after mem => fits after (List.mem_cons_of_mem step mem)
    rw [Session.run, Session.run, List.map_cons, List.map_cons, later, status next.machine]

end Alongside

variable {d e : Dispatcher} {capacity : Nat} {s s' : Session}

/-- Two machines that rest have everything in common but what observes them. -/
def Unanimous (d e : Dispatcher) (capacity : Nat) (m n : Machine) : Prop :=
  (Reachable d capacity m ∧ m.isQuiet) ∧ (Reachable e capacity n ∧ n.isQuiet) ∧
    m.unobserved = n.unobserved

theorem bond_of_unbroken (unbroken : d.Unbroken) (unbroken' : e.Unbroken) :
    Bond True (Unanimous d e capacity) where
  length := fun ⟨_, _, same⟩ => congrArg List.length (indistinct_of_unobserved same).calls
  answered := fun ⟨_, _, same⟩ call => by rw [(indistinct_of_unobserved same).calls]
  move := fun ⟨⟨h, quiet⟩, ⟨h', quiet'⟩, same⟩ v _ =>
    ⟨⟨h.trans (reaches_move quiet v), isQuiet_move _ v⟩,
      ⟨h'.trans (reaches_move quiet' v), isQuiet_move _ v⟩,
      (Unaware.move ⟨h.unbroken unbroken, h'.unbroken unbroken', same⟩ v).same⟩
  refusedFrame := fun ⟨⟨h, quiet⟩, ⟨h', quiet'⟩, same⟩ =>
    ⟨⟨h.tail .refusedFrame, quiet⟩, ⟨h'.tail .refusedFrame, quiet'⟩,
      by rw [unobserved_log, unobserved_log, same]⟩
  clearLeft := fun ⟨⟨h, quiet⟩, right, same⟩ => ⟨⟨h.tail .clearHistory, quiet⟩, right, same⟩
  clearRight := fun ⟨left, ⟨h', quiet'⟩, same⟩ => ⟨left, ⟨h'.tail .clearHistory, quiet'⟩, same⟩
  clearEvents := fun ⟨⟨h, quiet⟩, ⟨h', quiet'⟩, same⟩ =>
    ⟨⟨h.tail .clearEvents, quiet⟩, ⟨h'.tail .clearEvents, quiet'⟩, same⟩

theorem take_eq (s : Session) {step : Step} (calls : step ≠ .calls) (logs : step ≠ .logs) :
    ∃ machine opened, (s.take step).1 = { s with machine, opened } := by
  have settles (s : Session) (id : String) (o : OpenCall) (r : Report) :
      ∃ opened, (s.settleCall id o r).1 = { s with opened } := by
    rcases s.opened_settleCall id o r with same | same <;> exact ⟨_, same⟩
  have opens (id : String) (frame : Option (Codec × String)) (v : Move) :
      ∃ machine opened, (s.opening id frame v).1 = { s with machine, opened } := by
    obtain ⟨opened, same⟩ := settles (s.withOpened id frame v) id
      ⟨s.machine.calls.length, frame⟩ (.pending id)
    exact ⟨s.machine.move v, opened, same⟩
  cases step with
  | calls => exact absurd rfl calls
  | logs => exact absurd rfl logs
  | dispatch | frame =>
    unfold take
    dsimp only
    split <;> first | exact opens .. | exact ⟨_, _, rfl⟩
  | setState => exact opens ..
  | join =>
    unfold take
    dsimp only
    split
    · exact ⟨_, _, rfl⟩
    · exact ⟨s.machine, settles ..⟩
  | abandon =>
    unfold take
    dsimp only
    split
    · exact ⟨_, _, rfl⟩
    · split <;> exact ⟨_, _, rfl⟩
  | clearHistory | events =>
    unfold take
    dsimp only
    split <;> exact ⟨_, _, rfl⟩
  | _ => exact ⟨_, _, rfl⟩

theorem callsSeen_take {step : Step} (other : step ≠ .calls) :
    (s.take step).1.callsSeen = s.callsSeen := by
  by_cases logs : step = .logs
  · subst logs
    rfl
  · obtain ⟨machine, opened, same⟩ := s.take_eq other logs
    rw [same]

theorem logsSeen_take {step : Step} (other : step ≠ .logs) :
    (s.take step).1.logsSeen = s.logsSeen := by
  by_cases calls : step = .calls
  · subst calls
    rfl
  · obtain ⟨machine, opened, same⟩ := s.take_eq calls other
    rw [same]

structure SeenAlike (s s' : Session) : Prop where
  left : s.callsSeen ≤ s.machine.journal.length
  right : s'.callsSeen ≤ s'.machine.journal.length
  seen : unlogged (s.machine.journal.take s.callsSeen) =
    unlogged (s'.machine.journal.take s'.callsSeen)

structure Unison (d e : Dispatcher) (capacity : Nat) (s s' : Session) : Prop where
  alongside : Alongside (Unanimous d e capacity) s s'
  seen : SeenAlike s s'

theorem SeenAlike.take (h : SeenAlike s s') (quiet : s.machine.isQuiet)
    (quiet' : s'.machine.isQuiet)
    (same : unlogged s.machine.journal = unlogged s'.machine.journal) (step : Step) :
    SeenAlike (s.take step).1 (s'.take step).1 := by
  by_cases looks : step = .calls
  · subst looks
    refine ⟨Nat.le_refl s.machine.journal.length, Nat.le_refl s'.machine.journal.length, ?_⟩
    simpa [Session.take] using same
  · obtain ⟨news, journal, -⟩ := (reaches_take quiet step).1.later.journal
    obtain ⟨news', journal', -⟩ := (reaches_take quiet' step).1.later.journal
    constructor
    case left =>
      rw [callsSeen_take looks, journal, List.length_append]
      exact Nat.le_add_right_of_le h.left
    case right =>
      rw [callsSeen_take looks, journal', List.length_append]
      exact Nat.le_add_right_of_le h.right
    case seen =>
      rw [callsSeen_take looks, callsSeen_take looks, journal, journal',
        List.take_append_of_le_length h.left, List.take_append_of_le_length h.right, h.seen]

theorem SeenAlike.unseen (h : SeenAlike s s')
    (same : unlogged s.machine.journal = unlogged s'.machine.journal) :
    (s.machine.journal.drop s.callsSeen).filterMap Note.observation? =
      (s'.machine.journal.drop s'.callsSeen).filterMap Note.observation? := by
  rw [← List.take_append_drop s.callsSeen s.machine.journal,
    ← List.take_append_drop s'.callsSeen s'.machine.journal, unlogged_append, unlogged_append,
    h.seen] at same
  rw [← filterMap_unlogged fun _ => rfl, List.append_cancel_left same,
    filterMap_unlogged fun _ => rfl]

theorem report_settleCall (same : s.machine.calls = s'.machine.calls) (id : String) (o : OpenCall)
    (r : Report) : (s.settleCall id o r).2 = (s'.settleCall id o r).2 := by
  unfold settleCall
  rw [same]
  split <;> rfl

namespace Unison

variable (h : Unison d e capacity s s')
include h

theorem indistinct : Indistinct s.machine s'.machine :=
  indistinct_of_unobserved h.alongside.machine.2.2

theorem unlogged_eq : unlogged s.machine.journal = unlogged s'.machine.journal := by
  have same := congrArg Machine.journal h.alongside.machine.2.2
  exact same

variable (unbroken : d.Unbroken) (unbroken' : e.Unbroken)
include unbroken unbroken'

theorem report_opening (id : String) (frame : Option (Codec × String)) (v : Move) :
    (s.opening id frame v).2 = (s'.opening id frame v).2 := by
  have bond : Bond True (Unanimous d e capacity) := bond_of_unbroken unbroken unbroken'
  have moved := bond.move h.alongside.machine v fun _ => trivial
  rw [opening_eq, opening_eq, bond.length h.alongside.machine]
  exact report_settleCall (indistinct_of_unobserved moved.2.2).calls ..

theorem report_take {step : Step} (blind : step.looks = false) :
    (s.take step).2 = (s'.take step).2 := by
  have same := h.alongside.machine.2.2
  cases step with
  | dispatch =>
    unfold Session.take
    dsimp only
    split
    · rfl
    · exact h.report_opening unbroken unbroken' ..
  | frame =>
    unfold Session.take
    dsimp only
    split
    · exact h.report_opening unbroken unbroken' ..
    · rfl
    · rfl
  | setState => exact h.report_opening unbroken unbroken' ..
  | join id =>
    unfold Session.take
    dsimp only
    rw [← h.alongside.find?_eq id]
    split
    · rfl
    · exact report_settleCall h.indistinct.calls ..
  | abandon id =>
    unfold Session.take
    dsimp only
    rw [← h.alongside.find?_eq id, h.indistinct.calls]
    split
    · rfl
    · split <;> rfl
  | status => exact congrArg Report.status h.indistinct.status
  | calls => exact congrArg Report.calls (h.seen.unseen h.unlogged_eq)
  | clearHistory =>
    unfold Session.take
    dsimp only
    split <;> split <;> rfl
  | registry =>
    exact congrArg Report.registry (eq_of_unobserved (f := fun m => m.dispatcher.registry)
      (fun _ => rfl) same)
  | legalFrom command =>
    exact congrArg Report.states (eq_of_unobserved (f := fun m =>
      m.dispatcher.policy.legalFrom command) (fun _ => rfl) same)
  | debug =>
    exact congrArg Report.text (eq_of_unobserved (f := fun m => m.dispatcher.text)
      (fun _ => rfl) same)
  | serviceDebug =>
    exact congrArg Report.text (eq_of_unobserved (f := fun m => m.dispatcher.serviceText)
      (fun _ => rfl) same)
  | release | clearEvents => rfl
  | history | historyLength | events | logs => cases blind

theorem take (step : Step) : Unison d e capacity (s.take step).1 (s'.take step).1 where
  alongside := h.alongside.take (bond_of_unbroken unbroken unbroken') fun _ => trivial
  seen := h.seen.take h.alongside.machine.1.2 h.alongside.machine.2.1.2 h.unlogged_eq step

theorem after (steps : List Step) : Unison d e capacity (s.after steps) (s'.after steps) := by
  induction steps generalizing s s' with
  | nil => exact h
  | cons step steps ih => exact ih (h.take unbroken unbroken' step)

theorem heard_eq (steps : List Step) : s.heard steps = s'.heard steps := by
  induction steps generalizing s s' with
  | nil => rfl
  | cons step steps ih =>
    have next := h.take unbroken unbroken' step
    rw [heard_cons, heard_cons, ih next, next.indistinct.status]
    cases blind : step.looks with
    | false => rw [h.report_take unbroken unbroken' blind]
    | true => rfl

end Unison

def Abreast (d e : Dispatcher) (capacity : Nat) (m n : Machine) : Prop :=
  Rests d capacity m ∧ Rests e capacity n ∧ Agrees m n

theorem bond_of_abreast (settles : Scene.settle e = Scene.settle d) :
    Bond False (Abreast d e capacity) where
  length := fun ⟨_, _, agrees⟩ => agrees.length
  answered := fun ⟨rests, rests', agrees⟩ _ => agrees.answered rests rests'
  move := fun ⟨rests, rests', agrees⟩ v fits =>
    have stays : v.sends = false := Bool.eq_false_iff.2 fits
    ⟨rests.move stays, rests'.move stays, agrees.move rests rests' settles stays⟩
  refusedFrame := fun ⟨rests, rests', agrees⟩ =>
    ⟨rests.refusedFrame, rests'.refusedFrame, agrees.log ..⟩
  clearLeft := fun ⟨rests, rests', agrees⟩ =>
    ⟨rests.clearHistory, rests', ⟨agrees.scene, agrees.length, agrees.gaveUp⟩⟩
  clearRight := fun ⟨rests, rests', agrees⟩ =>
    ⟨rests, rests'.clearHistory, ⟨agrees.scene, agrees.length, agrees.gaveUp⟩⟩
  clearEvents := fun ⟨rests, rests', agrees⟩ =>
    ⟨rests.clearEvents, rests'.clearEvents, ⟨agrees.scene, agrees.length, agrees.gaveUp⟩⟩

def fresh (d : Dispatcher) (capacity : Nat) (ownsHistory : Bool) : Session where
  machine := .start d capacity
  ownsHistory

structure Unsteered (d e : Dispatcher) (capacity : Nat) : Prop where
  /-- As long as nothing breaks down, the same is heard after each step of a session, and callers
  see the same, whatever ways they come by. -/
  alike : d.Unbroken → e.Unbroken → ∀ owns owns' steps,
    (fresh d capacity owns).heard steps = (fresh e capacity owns').heard steps ∧
      Indistinct ((fresh d capacity owns).after steps).machine
        ((fresh e capacity owns').after steps).machine
  inStep : d.Unbroken → e.Unbroken → ∀ m n,
    InStep (.start d capacity) (.start e capacity) m n → Indistinct m n
  /-- Whatever breaks down, the status is the same after each step of a session that does not use
  the channel, and so are the handler runs. -/
  unsent : ∀ owns owns' steps, (∀ step ∈ steps, step.sends = false) →
    ((fresh d capacity owns).run steps).map Prod.snd =
        ((fresh e capacity owns').run steps).map Prod.snd ∧
      ((fresh d capacity owns).after steps).machine.journal.filterMap Note.running? =
        ((fresh e capacity owns').after steps).machine.journal.filterMap Note.running?

/-- Dispatchers that differ only in their history and in their sink do the same. -/
theorem observers_never_steer (d : Dispatcher) (ledger : Ledger) (telemetry : Telemetry)
    (capacity : Nat) : Unsteered d { d with ledger, telemetry } capacity := by
  let e : Dispatcher := { d with ledger, telemetry }
  have same : (Machine.start d capacity).unobserved = (Machine.start e capacity).unobserved := rfl
  have quiet (d : Dispatcher) := isQuiet_start d capacity
  constructor
  case alike =>
    intro unbroken unbroken' owns owns' steps
    have unison : Unison d e capacity (fresh d capacity owns) (fresh e capacity owns') := by
      refine ⟨⟨⟨⟨.refl, quiet d⟩, ⟨.refl, quiet e⟩, same⟩, rfl⟩, ?_⟩
      exact ⟨Nat.zero_le _, Nat.zero_le _, rfl⟩
    exact ⟨unison.heard_eq unbroken unbroken' steps,
      (unison.after unbroken unbroken' steps).indistinct⟩
  case inStep =>
    intro unbroken unbroken' m n inStep
    exact indistinct_of_unobserved (inStep.sound ⟨unbroken, unbroken', same⟩).same
  case unsent =>
    intro owns owns' steps unsent
    have bond : Bond False (Abreast d e capacity) := bond_of_abreast rfl
    have rests (d : Dispatcher) : Rests d capacity (.start d capacity) := ⟨.refl, nofun, quiet d⟩
    have alongside :
        Alongside (Abreast d e capacity) (fresh d capacity owns) (fresh e capacity owns') :=
      ⟨⟨rests d, rests e, rfl, rfl, fun _ => .rfl⟩, rfl⟩
    have fits (step : Step) (mem : step ∈ steps) (sends : step.sends) : False :=
      Bool.false_ne_true ((unsent step mem).symm.trans sends)
    have status {m n : Machine} (abreast : Abreast d e capacity m n) : m.status = n.status :=
      congrArg Scene.status abreast.2.2.scene
    exact ⟨alongside.statuses_eq bond status fits,
      congrArg Scene.ran (alongside.after bond fits).machine.2.2.scene⟩

/-- A start gets its permit. If the history breaks down then, the caller is told nothing of it, but
the start has been made. If a sink rejects the event, the caller is answered as if there were none,
also through the channel. -/
theorem observers_never_steer_of_failing_records :
    (∃ broken, Unsteered .patient broken 1 ∧
      (fresh broken 1 true).run [.dispatch .direct .start .null "a", .release 1, .join "a"] =
        [(.pending "a", {}), (.released, { state := .active }), (.panicked, { state := .active })] ∧
      ((fresh .patient 1 true).run
          [.dispatch .direct .start .null "a", .release 1, .join "a"]).map Prod.snd =
        [{}, { state := .active }, { state := .active }]) ∧
    ∃ closed, Unsteered .patient closed 1 ∧ closed.telemetry.sink = .rejecting "closed" ∧
      (fresh closed 1 true).heard [.dispatch .channel .start .null "a", .release 1, .join "a"] =
        [(some (.pending "a"), {}), (some .released, { state := .active }),
          (some (.result (.succeeded .start .unspecified .active)), { state := .active })] := by
  have steered := observers_never_steer .patient
    { history := .withCapacity 1, breaks := fun _ => some (some "full") } { sink := .discard } 1
  have alike := observers_never_steer .patient
    { history := .withCapacity 1 } { sink := .rejecting "closed" } 1
  refine ⟨⟨_, steered, rfl, ?_⟩, _, alike, rfl, ?_⟩
  · have unsent := steered.unsent true true [.dispatch .direct .start .null "a", .release 1,
      .join "a"] (by simp [Step.sends])
    exact unsent.1.trans rfl
  · have heard := alike.alike ⟨fun _ => rfl, fun _ => rfl⟩ ⟨fun _ => rfl, fun _ => rfl⟩ true true
      [.dispatch .channel .start .null "a", .release 1, .join "a"]
    exact heard.1.symm.trans rfl

end Session

end Lifecycle
