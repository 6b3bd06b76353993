import Lifecycle.Proofs.Observers

/-! The strict and the permissive policy side by side. They give the same verdict on every command
but a start that finds the error state. So two dispatchers with these policies go in step, whatever
is done to both of them, until such a start begins; and there their ways part. -/

namespace Lifecycle

theorem Policy.evaluate_congr (p q : Policy) {s : State} {c : Command}
    (other : c = .start → s ≠ .error) : p.evaluate s c = q.evaluate s c := by
  have none (r : Policy) : (r.restartFromError && c == .start && s == .error) = false := by
    simpa using fun _ => other
  simp only [evaluate, none]

def Dispatcher.withPolicy (d : Dispatcher) (policy : Policy) : Dispatcher := { d with policy }

namespace Machine

def withPolicy (m : Machine) (p : Policy) : Machine :=
  { m with dispatcher := m.dispatcher.withPolicy p }

/-- A start that found the error state has been decided. -/
def Restarted (m : Machine) : Prop := ∃ call outcome result status,
  .committed call outcome result status ∈ m.journal ∧ result.command = .start ∧
    result.previous = .error

variable {m n m' n' : Machine} {p : Policy}

theorem Restarted.later (h : m.Restarted) (sub : m.journal ⊆ m'.journal) : m'.Restarted :=
  let ⟨call, outcome, result, status, mem, start⟩ := h
  ⟨call, outcome, result, status, sub mem, start⟩

theorem lockstep_withPolicy (p : Policy) : Lockstep fun m n => n = m.withPolicy p where
  channel := by rintro m _ rfl; rfl
  gate := by rintro m _ rfl; rfl
  permits := by rintro m _ rfl; rfl
  status := by rintro m _ rfl; rfl
  length := by rintro m _ rfl; rfl
  runs := by rintro m _ rfl _; rfl
  hasRoom := by rintro m _ rfl; rfl
  isBlocked := by rintro m _ rfl; rfl
  isPending := by rintro m _ rfl _; exact .inl rfl
  withChannel := by rintro m _ rfl _; rfl
  withGate := by rintro m _ rfl _; rfl
  withPermits := by rintro m _ rfl _; rfl
  setStatus := by rintro m _ rfl _; rfl
  note := by rintro m _ rfl _ _; rfl
  log := by rintro m _ rfl _; rfl
  wake := by rintro m _ rfl _; rfl
  resume := by rintro m _ rfl _; rfl
  putOff := by rintro m _ rfl _; rfl
  setProgress := by rintro m _ rfl _ _; rfl
  opened := by rintro m _ rfl; rfl
  recordCost := by rintro m _ rfl; rfl
  record := by
    rintro m _ rfl call r e
    unfold record
    dsimp only [withPolicy, Dispatcher.withPolicy]
    split
    · exact ⟨rfl, rfl⟩
    · dsimp only [note]
      split <;> exact ⟨rfl, rfl⟩

/-- The holder of the gate is a start that has not begun, and the state is the error state. -/
def AtRestart (m : Machine) : Prop :=
  ∃ t args, m.gate.holder = some ⟨t, .admitted⟩ ∧ t.work = .dispatch .start args ∧
    m.state = .error

theorem prepare_withPolicy {d : Dispatcher} {command : Command}
    (other : command = .start → d.state ≠ .error) :
    (d.withPolicy p).prepare command = d.prepare command := by
  have verdict := Policy.evaluate_congr p d.policy other
  simp only [Dispatcher.prepare, Dispatcher.withPolicy, Dispatcher.state] at verdict ⊢
  rw [verdict]

def Restarting (m : Machine) : Prop :=
  (∃ share, m.turns.head? = some (.proceed share)) ∧ m.AtRestart

theorem withPolicy_step (other : ¬ m.Restarting) : (m.withPolicy p).step = m.step.withPolicy p := by
  refine (lockstep_withPolicy p).step rfl rfl rfl (fun _ _ => rfl) fun turn next goesOn => ?_
  intro t held command args work
  refine (prepare_withPolicy fun start found => other ⟨?_, t, args, held, start ▸ work, found⟩).symm
  cases turn with
  | proceed share => exact ⟨share, next⟩
  | _ => cases goesOn

theorem withPolicy_submit (m : Machine) (p : Policy) (v : Move) :
    (m.withPolicy p).submit v = (m.submit v).withPolicy p :=
  (lockstep_withPolicy p).submit rfl fun _ _ => rfl

theorem journal_wrapUp {t : Ticket} (inside : m.gate.ticket? = some t) (r : Result) (e : Event)
    (share : Nat) : m.journal <+: (m.wrapUp t r e share).journal := by
  unfold wrapUp
  split
  · exact List.prefix_rfl
  · obtain ⟨ledger, telemetry, news, ending, same, -⟩ := m.record_eq t.call r e
    dsimp only
    rw [same]
    have passed := Later.passOn (m := { m with
      dispatcher := { m.dispatcher with ledger, telemetry }, journal := m.journal ++ news }) inside
    obtain ⟨more, journal, -⟩ := (passed.trans (.closes (closes_conclude ..))).journal
    rw [journal, List.append_assoc]
    exact List.prefix_append ..

theorem journal_finish {t : Ticket} (inside : m.gate.ticket? = some t) (command : Command)
    (previous : State) (outcome : Option Outcome) (decision : Decision) (share : Nat) :
    m.journal ++ [.logged (decision.log command previous), .committed t.call outcome
        (decision.result command previous) (decision.status command m.status)] <+:
      (m.finish t command previous outcome decision share).journal := by
  have commits : (m.commit t.call command previous outcome decision).journal = m.journal ++
      [.logged (decision.log command previous), .committed t.call outcome
        (decision.result command previous) (decision.status command m.status)] := by
    simp [commit, log, note, setStatus, status]
  rw [finish, ← commits]
  exact journal_wrapUp (by exact inside) ..

theorem journal_advance (m : Machine) (t : Ticket) (r : Run) (share : Nat) :
    m.journal <+: (m.advance t r share).journal := by
  unfold advance
  generalize min (min r.permits m.permits) share = got
  dsimp only
  split
  · refine (List.prefix_append ..).trans (journal_finish (m := { m with
      permits := m.permits - got
      gate := { m.gate with
        holder := some ⟨t, .running { r with permits := r.permits - got }⟩ } }) rfl ..)
  · split <;> exact List.prefix_rfl

theorem journal_begin {t : Ticket} {command : Command} {args : Args} {fallback : State}
    {handler : Handler} (work : t.work = .dispatch command args)
    (prepared : m.dispatcher.prepare command = .ok (fallback, handler)) (share : Nat) :
    m.journal ++ [.ran t.call ⟨command, m.state, args⟩ handler.observed] <+:
      (m.begin t share).journal := by
  simp only [begin, work, prepared]
  exact journal_advance (m.note (.ran t.call ⟨command, m.state, args⟩ handler.observed)) ..

structure Refuses (m : Machine) (t : Ticket) (failure : Failure) (m' : Machine) : Prop where
  state : m'.state = m.state
  lastError : m'.status.lastError = some failure.message
  noted : m.journal ++ [.logged (.refused .start m.state failure), .committed t.call none
    (.failed .start m.state m.state failure) m'.status] <+: m'.journal
  runs : m'.journal.filterMap Note.running? = m.journal.filterMap Note.running?

theorem refuses_begin {t : Ticket} {args : Args} {failure : Failure}
    (inside : m.gate.ticket? = some t) (work : t.work = .dispatch .start args)
    (refused : m.dispatcher.prepare .start = .error failure) (share : Nat) :
    Refuses m t failure (m.begin t share) := by
  have scene := begin_refused inside work refused share
  have status : (m.begin t share).status = m.status.recordError failure.message :=
    congrArg Scene.status scene
  constructor
  case state =>
    change (m.begin t share).status.state = m.state
    rw [status]
    rfl
  case lastError => rw [status]; rfl
  case runs => exact congrArg Scene.ran scene
  case noted =>
    rw [status]
    simp only [begin, work, refused]
    exact journal_finish inside .start m.state none (.refuse failure) share

theorem prepare_of_strict {d : Dispatcher} (strict : d.policy = .strict)
    (found : d.state = .error) :
    d.prepare .start = .error (.illegalTransition .start .error) := by
  rw [Dispatcher.prepare, strict, found]
  rfl

theorem prepare_of_permissive {d : Dispatcher} (permissive : d.policy = .permissiveRestart)
    (found : d.state = .error) :
    (d.registry.handler? .start = none → d.prepare .start = .error (.unhandledCommand .start)) ∧
      ∀ handler, d.registry.handler? .start = some handler →
        d.prepare .start = .ok (.active, handler) := by
  have allows : Policy.permissiveRestart.evaluate .error .start = .allowed .active := rfl
  simp only [Dispatcher.prepare, permissive, found, allows]
  constructor
  · intro none
    rw [none]
  · intro handler some
    rw [some]

/-- Where a strict machine refuses a start in the error state, a permissive one runs the handler for
it, or has none. -/
def Parts (d : Dispatcher) (m n : Machine) : Prop :=
  ∃ t args, m.gate.holder = some ⟨t, .admitted⟩ ∧ t.work = .dispatch .start args ∧
    m.state = .error ∧ Refuses m t (.illegalTransition .start .error) m.step ∧
    match d.registry.handler? .start with
    | some handler =>
      n.journal ++ [.ran t.call ⟨.start, .error, args⟩ handler.observed] <+: n.step.journal
    | none => Refuses n t (.unhandledCommand .start) n.step

theorem step_of_proceed {share : Nat} (next : m.turns.head? = some (.proceed share)) :
    ∃ ready deferred, m.step = { m with ready, deferred }.proceed share := by
  rcases m.step_cases with ⟨quiet, -⟩ | ⟨turn, ready, deferred, turns, -, same⟩
  · simp [isQuiet_iff_turns.1 quiet] at next
  · rw [turns, List.head?_cons, Option.some.injEq] at next
    subst next
    exact ⟨ready, deferred, same⟩

theorem Restarting.begins {share : Nat} {t : Ticket} (next : m.turns.head? = some (.proceed share))
    (held : m.gate.holder = some ⟨t, .admitted⟩) :
    ∃ ready deferred, m.step = { m with ready, deferred }.begin t share := by
  obtain ⟨ready, deferred, same⟩ := step_of_proceed next
  refine ⟨ready, deferred, ?_⟩
  simp only [same, proceed, held]

theorem Restarting.refuses {share : Nat} {t : Ticket} {args : Args} {failure : Failure}
    (next : m.turns.head? = some (.proceed share)) (held : m.gate.holder = some ⟨t, .admitted⟩)
    (work : t.work = .dispatch .start args)
    (refused : m.dispatcher.prepare .start = .error failure) : Refuses m t failure m.step := by
  obtain ⟨ready, deferred, same⟩ := Restarting.begins next held
  have inside : m.gate.ticket? = some t := Gate.ticket?_eq_some.2 ⟨_, held⟩
  have refuses := refuses_begin (m := { m with ready, deferred }) inside work refused share
  rw [same]
  exact ⟨refuses.state, refuses.lastError, refuses.noted, refuses.runs⟩

theorem Restarting.parts (h : m.Restarting) {d : Dispatcher}
    (strict : m.dispatcher.policy = .strict)
    (registry : m.dispatcher.registry = d.registry) :
    Parts d m (m.withPolicy .permissiveRestart) := by
  obtain ⟨⟨share, next⟩, t, args, held, work, found⟩ := h
  refine ⟨t, args, held, work, found,
    Restarting.refuses next held work (prepare_of_strict strict found), ?_⟩
  have allows := prepare_of_permissive (d := m.dispatcher.withPolicy .permissiveRestart) rfl found
  rw [← registry]
  cases handles : m.dispatcher.registry.handler? .start with
  | none => exact Restarting.refuses (by exact next) (by exact held) work (allows.1 handles)
  | some handler =>
    have prepares := allows.2 handler handles
    obtain ⟨ready, deferred, same⟩ :=
      Restarting.begins (m := m.withPolicy .permissiveRestart) (by exact next) (by exact held)
    have runs := journal_begin (m := { m.withPolicy .permissiveRestart with ready, deferred })
      work prepares share
    have state : Machine.state { m.withPolicy .permissiveRestart with ready, deferred } = .error :=
      found
    rw [state] at runs
    rwa [same]

theorem Publishes.committed {t : Ticket} {stage : Stage} {status status' : Status}
    {news : List Note} {r result : Result} {e : Event} {call : Nat} {outcome : Option Outcome}
    (h : Publishes m t stage status news r e)
    (mem : .committed call outcome result status' ∈ news) : ∃ begun command previous decision,
      Decides m t stage begun command previous outcome decision ∧
        result = decision.result command previous := by
  cases h with
  | before => cases mem
  | now decides =>
    rcases List.mem_append.1 mem with begun | mem
    · cases decides with
      | refuse => cases begun
      | decide begins =>
        obtain ⟨_, _, same⟩ := begins.notes _ begun
        cases same
    · simp only [List.mem_cons, reduceCtorEq, Note.committed.injEq, List.not_mem_nil, or_false,
        false_or] at mem
      obtain ⟨rfl, rfl, rfl, rfl⟩ := mem
      exact ⟨_, _, _, _, decides, rfl⟩

theorem Later.committed {e : Progress → Prop} {call : Nat} {outcome : Option Outcome}
    {result : Result} {status : Status} (later : Later (fun n => n.contributor? = none) e m m')
    (mem : .committed call outcome result status ∈ m'.journal) :
    .committed call outcome result status ∈ m.journal := by
  obtain ⟨news, same, silent⟩ := later.journal
  rw [same] at mem
  refine (List.mem_append.1 mem).resolve_right fun new => ?_
  cases silent _ new

theorem Proceeds.committed (p : Proceeds m m') {call : Nat} {outcome : Option Outcome}
    {result : Result} {status : Status}
    (mem : .committed call outcome result status ∈ m'.journal) :
    .committed call outcome result status ∈ m.journal ∨
      ∃ t stage begun command previous decision, m.gate.holder = some ⟨t, stage⟩ ∧
        Decides m t stage begun command previous outcome decision ∧
        result = decision.result command previous := by
  have begun {t : Ticket} {stage : Stage} {begun : List Note} {r : Run}
      (begins : Begins m t stage begun r)
      (mem : .committed call outcome result status ∈ m.journal ++ begun) :
      .committed call outcome result status ∈ m.journal := by
    refine (List.mem_append.1 mem).resolve_right fun new => ?_
    obtain ⟨_, _, same⟩ := begins.notes _ new
    cases same
  cases p with
  | nobody => exact .inl mem
  | putsOff needs held begins => exact .inl (begun begins mem)
  | blocks needs held begins => exact .inl (begun begins mem)
  | putsOffRecord held publishes =>
    refine (List.mem_append.1 mem).imp_right fun new => ?_
    obtain ⟨begun, command, previous, decision, decides, same⟩ := publishes.committed new
    exact ⟨_, _, begun, command, previous, decision, held, decides, same⟩
  | leaves stage' permits held publishes records closes =>
    have mem := ((Later.passOn rfl).trans (.closes closes)).committed mem
    refine (List.mem_append.1 mem).imp_right fun new => ?_
    have published := (List.mem_append.1 new).resolve_right fun recorded => by
      cases records <;> simp at recorded
    obtain ⟨begun, command, previous, decision, decides, same⟩ := publishes.committed published
    exact ⟨_, _, begun, command, previous, decision, held, decides, same⟩
  | arranges held =>
    have mem := ((Later.passOn rfl).trans (.answer ..)).committed mem
    refine .inl ((List.mem_append.1 mem).resolve_right fun new => ?_)
    simp at new

variable {d : Dispatcher} {capacity : Nat}

/-- In a strict machine a start that found the error state is decided when it has been admitted, not
later. -/
theorem Reachable.restarting (h : Reachable d capacity m) (strict : d.policy = .strict)
    (still : ¬ m.Restarted) (new : m.step.Restarted) : m.Restarting := by
  obtain ⟨call, outcome, result, status, mem, start, found⟩ := new
  have older (mem : .committed call outcome result status ∈ m.journal) : False :=
    still ⟨call, outcome, result, status, mem, start, found⟩
  have policy : m.dispatcher.policy = .strict := h.accounted.alike.policy.trans strict
  rcases m.step_cases with ⟨-, same⟩ | ⟨turn, ready, deferred, next, -, same⟩
  · exact (older (same ▸ mem)).elim
  rw [same] at mem
  cases turn with
  | proceed share =>
    rcases (Machine.proceeds _ share).committed mem with mem | ⟨t, stage, begun, command, previous,
      decision, held, decides, rfl⟩
    · exact (older mem).elim
    rw [Decision.command_result] at start
    rw [Decision.previous_result] at found
    subst start found
    have at_ (state : m.state = .error) {fallback : State} {handler : Handler}
        (prepared : m.dispatcher.prepare .start = .ok (fallback, handler)) : False := by
      cases (prepare_of_strict policy state).symm.trans prepared
    generalize state : State.error = previous at decides
    generalize command : Command.start = command at decides
    cases decides with
    | refuse work =>
      subst command
      exact ⟨⟨share, by rw [next]; rfl⟩, t, _, held, work, state.symm⟩
    | @decide stage begun r begins =>
      cases begins with
      | already =>
        have lawful := h.lawful
        have held : m.gate.holder = some ⟨t, .running r⟩ := held
        simp only [Gate.phase, held, Holding.phase] at lawful
        obtain ⟨now, args, handler, before, since, work, prepared, -⟩ := lawful.of_running
        rw [← command] at prepared
        have prepared := (h.accounted.alike.prepare .start).symm.trans prepared
        exact (at_ (now.symm.trans state.symm) prepared).elim
      | runs work prepared =>
        dsimp only at command
        subst command
        exact (at_ state.symm prepared).elim
  | _ =>
    refine (older (Later.committed (m := { m with ready, deferred }) (e := Progress.isAnswered)
      ?_ mem)).elim
    exact Later.take _ (by rintro share ⟨⟩)

theorem Restarting.restarted (h : m.Restarting) (strict : m.dispatcher.policy = .strict) :
    m.step.Restarted := by
  obtain ⟨t, args, -, -, found, refuses, -⟩ := h.parts strict rfl
  have noted := refuses.noted.subset (List.mem_append_right _ (List.mem_cons_of_mem _
    List.mem_cons_self))
  exact ⟨_, _, _, _, noted, rfl, found⟩

theorem Restarted.of_submit {v : Move} (h : (m.submit v).Restarted) : m.Restarted := by
  obtain ⟨call, outcome, result, status, mem, start⟩ := h
  refine ⟨call, outcome, result, status, ?_, start⟩
  cases v with
  | abandon call => exact (Later.givesUp (m.givesUp_abandon call)).committed mem
  | dispatch | arrange | release => exact (Later.submit m rfl).committed mem

/-- The same is done in both machines and to both of them, change by change. -/
inductive Together (m n : Machine) : Machine → Machine → Prop
  | start : Together m n m n
  | turn {m' n' : Machine} (before : Together m n m' n') : Together m n m'.step n'.step
  | move {m' n' : Machine} (before : Together m n m' n') (v : Move) (timely : m'.Timely v) :
    Together m n (m'.submit v) (n'.submit v)
  | clearHistory {m' n' : Machine} (before : Together m n m' n') :
    Together m n m'.clearHistory n'.clearHistory
  | clearEvents {m' n' : Machine} (before : Together m n m' n') :
    Together m n m'.clearEvents n'.clearEvents
  | refusedFrame {m' n' : Machine} (before : Together m n m' n') :
    Together m n (m'.log [.undecodable]) (n'.log [.undecodable])

section strict

variable (strict : d.policy = .strict)

theorem Together.reachable (together : Together (.start d capacity) n m' n') :
    Reachable d capacity m' := by
  induction together with
  | start => exact .refl
  | turn _ ih => exact ih.tail .turn
  | move _ v timely ih => exact ih.tail (.move v timely)
  | clearHistory _ ih => exact ih.tail .clearHistory
  | clearEvents _ ih => exact ih.tail .clearEvents
  | refusedFrame _ ih => exact ih.tail .refusedFrame

include strict

theorem Together.same
    (together : Together (.start d capacity) (.start (d.withPolicy p) capacity) m n)
    (still : ¬ m.Restarted) : n = m.withPolicy p := by
  have earlier {m m' : Machine} (change : Change m m') (still : ¬ m'.Restarted) : ¬ m.Restarted :=
    fun restarted => still (restarted.later (Reaches.subset (.single change)))
  induction together with
  | start => rfl
  | turn before ih =>
    have policy := before.reachable.accounted.alike.policy.trans strict
    rw [ih (earlier .turn still), withPolicy_step fun restarting => still
      (restarting.restarted policy)]
  | move before v timely ih => rw [ih (earlier (.move v timely) still), withPolicy_submit]
  | clearHistory _ ih | clearEvents _ ih => rw [ih still]; rfl
  | refusedFrame _ ih => rw [ih (earlier .refusedFrame still)]; rfl

/-- There was a first start that found the error state. Up to that the strict and the permissive
machine were the same, and then their ways parted. -/
def Parted (d : Dispatcher) (capacity : Nat) (m : Machine) : Prop :=
  ∃ m₀ n₀, Together (.start d capacity) (.start (d.withPolicy .permissiveRestart) capacity) m₀ n₀ ∧
    ¬ m₀.Restarted ∧ n₀ = m₀.withPolicy .permissiveRestart ∧ Parts d m₀ n₀ ∧ Reaches m₀.step m

theorem Together.parted
    (together : Together (.start d capacity)
      (.start (d.withPolicy .permissiveRestart) capacity) m n)
    (restarted : m.Restarted) : Parted d capacity m := by
  have later {m m' : Machine} (change : Change m m') (parted : Parted d capacity m) :
      Parted d capacity m' :=
    let ⟨m₀, n₀, together, still, same, parts, later⟩ := parted
    ⟨m₀, n₀, together, still, same, parts, later.tail change⟩
  induction together with
  | start =>
    obtain ⟨_, _, _, _, mem, -⟩ := restarted
    cases mem
  | @turn m n now ih =>
    by_cases already : m.Restarted
    · exact later .turn (ih already)
    · have alike := now.reachable.accounted.alike
      have restarting := now.reachable.restarting strict already restarted
      have same := now.same strict already
      exact ⟨m, n, now, already, same,
        same ▸ restarting.parts (alike.policy.trans strict) alike.registry, .refl⟩
  | move _ v timely ih => exact later (.move v timely) (ih restarted.of_submit)
  | clearHistory _ ih => exact later .clearHistory (ih restarted)
  | clearEvents _ ih => exact later .clearEvents (ih restarted)
  | refusedFrame _ ih =>
    refine later .refusedFrame (ih ?_)
    obtain ⟨call, outcome, result, status, mem, start⟩ := restarted
    exact ⟨call, outcome, result, status, by simpa [log] using mem, start⟩

end strict

end Machine

namespace Session

open Machine

def withPolicy (s : Session) (p : Policy) : Session := { s with machine := s.machine.withPolicy p }

def Step.showsPolicy : Step → Bool
  | .legalFrom _ | .debug | .serviceDebug => true
  | _ => false

variable {d : Dispatcher} {capacity : Nat} {s : Session} {p : Policy}

section strict

variable (strict : d.policy = .strict)
include strict

theorem withPolicy_settle {m : Machine} (h : Reachable d capacity m)
    (still : ¬ m.settle.Restarted) : (m.withPolicy p).settle = m.settle.withPolicy p := by
  have steps (k : Nat) : ∀ m, Reachable d capacity m → ¬ (steps k m).Restarted →
      steps k (m.withPolicy p) = (steps k m).withPolicy p := by
    -- Both have the same work, so they settle with the same number of turns.
    induction k with
    | zero => exact fun _ _ _ => rfl
    | succ k ih =>
      intro m h still
      have quiet : (m.withPolicy p).isQuiet = m.isQuiet := rfl
      rw [Machine.steps] at still
      rw [Machine.steps, Machine.steps, quiet]
      split
      · rfl
      · next busy =>
        rw [if_neg busy] at still
        have policy := h.accounted.alike.policy.trans strict
        have unmoved : ¬ m.Restarting := fun restarting =>
          still ((restarting.restarted policy).later (reaches_steps k m.step).subset)
        rw [withPolicy_step unmoved]
        exact ih m.step (h.tail .turn) still
  exact steps m.work m h still

theorem withPolicy_move {m : Machine} (h : Reachable d capacity m) (quiet : m.isQuiet) (v : Move)
    (still : ¬ (m.move v).Restarted) : (m.withPolicy p).move v = (m.move v).withPolicy p := by
  rw [Machine.move, withPolicy_submit]
  exact withPolicy_settle strict (h.tail (.move v (timely_of_quiet quiet v))) still

end strict

theorem withPolicy_settleCall (s : Session) (p : Policy) (id : String) (o : OpenCall) (r : Report) :
    (s.withPolicy p).settleCall id o r =
      ((s.settleCall id o r).1.withPolicy p, (s.settleCall id o r).2) := by
  have calls : (s.withPolicy p).machine.calls = s.machine.calls := rfl
  unfold settleCall
  rw [calls]
  split <;> rfl

/-- What everybody is told whose step does not look at the policy, and the status after each
step. -/
def toldAlike (s : Session) (steps : List Step) : List (Option Report × Status) :=
  List.zipWith (fun step x => (if step.showsPolicy then none else some x.1, x.2)) steps
    (s.run steps)

theorem toldAlike_cons (s : Session) (step : Step) (steps : List Step) :
    s.toldAlike (step :: steps) = (if step.showsPolicy then none else some (s.take step).2,
      (s.take step).1.machine.status) :: (s.take step).1.toldAlike steps := rfl

variable (h : Reachable d capacity s.machine) (quiet : s.machine.isQuiet)
  (strict : d.policy = .strict)
include h quiet strict

theorem withPolicy_opening (id : String) (frame : Option (Codec × String)) (v : Move)
    (still : ¬ (s.machine.move v).Restarted) : (s.withPolicy p).opening id frame v =
      ((s.opening id frame v).1.withPolicy p, (s.opening id frame v).2) := by
  have opened : (s.withPolicy p).withOpened id frame v =
      (s.withOpened id frame v).withPolicy p := by
    have moved := withPolicy_move (p := p) strict h quiet v still
    simp only [withOpened, withPolicy] at moved ⊢
    rw [moved]
    rfl
  rw [opening_eq, opened]
  exact withPolicy_settleCall ..

theorem withPolicy_take {step : Step} (still : ¬ (s.take step).1.machine.Restarted) :
    ((s.withPolicy p).take step).1 = (s.take step).1.withPolicy p ∧
      (step.showsPolicy = false → ((s.withPolicy p).take step).2 = (s.take step).2) := by
  have both {x y : Session × Report} (same : x = (y.1.withPolicy p, y.2)) :
      x.1 = y.1.withPolicy p ∧ (step.showsPolicy = false → x.2 = y.2) := by
    rw [same]
    exact ⟨rfl, fun _ => rfl⟩
  cases step with
  | dispatch entry command args id =>
    unfold take at still ⊢
    dsimp only at still ⊢
    split
    · exact ⟨rfl, fun _ => rfl⟩
    · next document ok =>
      simp only [ok, machine_opening] at still
      exact both (withPolicy_opening h quiet strict _ _ _ still)
  | frame codec bytes id =>
    unfold take at still ⊢
    dsimp only at still ⊢
    split
    · next ok =>
      simp only [ok, machine_opening] at still
      exact both (withPolicy_opening h quiet strict _ _ _ still)
    · exact ⟨rfl, fun _ => rfl⟩
    · exact ⟨rfl, fun _ => rfl⟩
  | setState state id =>
    simp only [take, machine_opening] at still
    exact both (withPolicy_opening h quiet strict _ _ _ still)
  | join id =>
    have found : (s.withPolicy p).find? id = s.find? id := rfl
    unfold take
    dsimp only
    rw [found]
    split
    · exact ⟨rfl, fun _ => rfl⟩
    · exact both (withPolicy_settleCall ..)
  | abandon id =>
    have found : (s.withPolicy p).find? id = s.find? id := rfl
    have calls : (s.withPolicy p).machine.calls = s.machine.calls := rfl
    unfold take at still ⊢
    dsimp only at still ⊢
    rw [found, calls]
    split
    · exact ⟨rfl, fun _ => rfl⟩
    · next o find =>
      split
      · exact ⟨rfl, fun _ => rfl⟩
      · next told =>
        simp only [find] at still
        refine ⟨?_, fun _ => rfl⟩
        exact congrArg (fun machine => { s.forget id with machine })
          (withPolicy_move strict h quiet _ still)
  | release n =>
    refine ⟨?_, fun _ => rfl⟩
    exact congrArg (fun machine => { s with machine }) (withPolicy_move strict h quiet _ still)
  | clearHistory =>
    have owns : (s.withPolicy p).ownsHistory = s.ownsHistory := rfl
    unfold take
    dsimp only
    rw [owns]
    split <;> exact ⟨rfl, fun _ => rfl⟩
  | events =>
    have sink : (s.withPolicy p).machine.dispatcher.telemetry =
        s.machine.dispatcher.telemetry := rfl
    unfold take
    dsimp only
    rw [sink]
    split <;> exact ⟨rfl, fun _ => rfl⟩
  | legalFrom | debug | serviceDebug => exact ⟨rfl, fun other => by cases other⟩
  | _ => exact ⟨rfl, fun _ => rfl⟩

theorem withPolicy_after {steps : List Step} (still : ¬ (s.after steps).machine.Restarted) :
    (s.withPolicy p).after steps = (s.after steps).withPolicy p ∧
      (s.withPolicy p).toldAlike steps = s.toldAlike steps := by
  induction steps generalizing s with
  | nil => exact ⟨rfl, rfl⟩
  | cons step steps ih =>
    obtain ⟨reaches, quiet'⟩ := reaches_take quiet step
    have later := (reaches_after quiet' steps).1.subset
    have still' : ¬ (s.take step).1.machine.Restarted := fun restarted =>
      still (restarted.later later)
    obtain ⟨taken, told⟩ := withPolicy_take (p := p) h quiet strict still'
    obtain ⟨same, rest⟩ := ih (h.trans reaches) quiet' still
    refine ⟨by rw [after, List.foldl_cons, taken]; exact same, ?_⟩
    rw [toldAlike_cons, toldAlike_cons, taken, rest]
    have status : ((s.take step).1.withPolicy p).machine.status = (s.take step).1.machine.status :=
      rfl
    rw [status]
    cases shows : step.showsPolicy with
    | false => rw [told shows]
    | true => rfl

omit h quiet strict

/-- A strict and a permissive dispatcher, alike in all else. -/
structure PartAtRestart (d : Dispatcher) (capacity : Nat) : Prop where
  /-- Whatever is done to both, turn by turn, everything but the policy is the same in both as long
  as no start has found the error state. -/
  same : ∀ m n, Together (.start (d.withPolicy .strict) capacity)
    (.start (d.withPolicy .permissiveRestart) capacity) m n → ¬ m.Restarted →
      n = m.withPolicy .permissiveRestart
  /-- If one has, the first of them was refused by the one and let through by the other. -/
  parted : ∀ m n, Together (.start (d.withPolicy .strict) capacity)
    (.start (d.withPolicy .permissiveRestart) capacity) m n → m.Restarted →
      Parted (d.withPolicy .strict) capacity m
  /-- So it is in sessions; and everybody is told the same, also at each step, unless it looks at
  the policy. -/
  sessions : ∀ owns steps,
    ¬ ((fresh (d.withPolicy .strict) capacity owns).after steps).machine.Restarted →
      (fresh (d.withPolicy .permissiveRestart) capacity owns).after steps =
        ((fresh (d.withPolicy .strict) capacity owns).after steps).withPolicy .permissiveRestart ∧
      (fresh (d.withPolicy .permissiveRestart) capacity owns).toldAlike steps =
        (fresh (d.withPolicy .strict) capacity owns).toldAlike steps

/-- Strict and permissive dispatchers do the same until a start finds the error state. -/
theorem policies_part_at_restart (d : Dispatcher) (capacity : Nat) : PartAtRestart d capacity where
  same _ _ together still := together.same rfl still
  parted _ _ together restarted := together.parted rfl restarted
  sessions owns _ still := withPolicy_after (s := fresh (d.withPolicy .strict) capacity owns)
    .refl (isQuiet_start _ capacity) rfl still

/-- Starts fail and lead into the error state. From there the strict one refuses a start, and the
permissive one lets its handler fail again. -/
example : let d := Dispatcher.ofRegistry ⟨fun _ => some {
      behaviour := fun n _ => ⟨0, .failed (toString n)⟩ }⟩
    let steps : List Step :=
      [.dispatch .direct .start .null "a", .dispatch .channel .start .null "b"]
    (((fresh (d.withPolicy .strict) 1 true).run steps).map fun x => x.2.lastError) =
      [some "0", some "illegal transition: START from ERROR"] ∧
    (((fresh (d.withPolicy .permissiveRestart) 1 true).run steps).map fun x => x.2.lastError) =
      [some "0", some "1"] := by
  decide

end Session

end Lifecycle
