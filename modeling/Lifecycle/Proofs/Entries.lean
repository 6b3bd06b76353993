import Lifecycle.Proofs.Frames
import Lifecycle.Proofs.Observers
import Lifecycle.Proofs.RoundTrip
import Lifecycle.Proofs.Ways

/-! All ways to a dispatcher are interchangeable. Two sessions take the same steps, except that
their dispatches come by different ways. If nothing breaks down and nobody gives up, everything goes
the same way in both, as long as no more than one request at a time is in the channel. -/

namespace Lifecycle

/-- Everything but the ways by which callers came is the same in two machines: what callers see, and
what is recorded. -/
structure Machine.Matched (m n : Machine) : Prop where
  callers : Indistinct m n
  history : m.dispatcher.ledger.history = n.dispatcher.ledger.history
  sink : m.dispatcher.telemetry.sink = n.dispatcher.telemetry.sink
  appended : m.appended = n.appended
  emitted : m.emitted = n.emitted
  logged : m.journal.filterMap Note.record? = n.journal.filterMap Note.record?

theorem filterMap_inner {α : Type} {f : Note → Option α}
    (inner : ∀ n, n.isInner = false → f n = none) (j : List Note) :
    (j.filter Note.isInner).filterMap f = j.filterMap f := by
  rw [List.filterMap_filter]
  refine List.filterMap_congr fun n _ => ?_
  cases kind : n.isInner with
  | true => rfl
  | false => exact (inner n kind).symm

namespace Machine

variable {m n : Machine}

theorem matched_of_bare (same : m.bare = n.bare) : Matched m n := by
  have dispatcher := congrArg Machine.dispatcher same
  have calls := congrArg Machine.calls same
  have journal : m.journal.filter Note.isInner = n.journal.filter Note.isInner :=
    congrArg Machine.journal same
  have view {α : Type} {f : Note → Option α} (inner : ∀ n, n.isInner = false → f n = none) :
      m.journal.filterMap f = n.journal.filterMap f := by
    rw [← filterMap_inner inner, journal, filterMap_inner inner]
  constructor
  case callers =>
    constructor
    case status => exact congrArg Dispatcher.status dispatcher
    case calls => exact calls
    all_goals exact view (by rintro ⟨⟩ ⟨⟩ <;> rfl)
  case history => exact congrArg (fun d : Dispatcher => d.ledger.history) dispatcher
  case sink => exact congrArg (fun d : Dispatcher => d.telemetry.sink) dispatcher
  all_goals exact view (by rintro ⟨⟩ ⟨⟩ <;> rfl)

end Machine

namespace Session

open Machine

structure Asked.Alike (a b : Asked) : Prop where
  id : a.id = b.id
  command : a.command = b.command
  args : a.args = b.args

/-- Two steps are the same, or both ask for the same dispatch. Neither gives anything up. -/
inductive Step.Alike : Step → Step → Prop
  | same {step} (stays : ∀ id, step ≠ .abandon id) : Alike step step
  | asks {step step' a b} (left : step.request? = some a) (right : step'.request? = some b)
    (alike : a.Alike b) : Alike step step'

theorem Step.Alike.looks {step step' : Step} (h : step.Alike step') :
    (step = .calls ↔ step' = .calls) ∧ (step = .logs ↔ step' = .logs) := by
  have blind {step : Step} {a : Asked} (asks : step.request? = some a) :
      step ≠ .calls ∧ step ≠ .logs := by
    constructor <;> rintro rfl <;> cases asks
  cases h with
  | same => exact ⟨.rfl, .rfl⟩
  | asks left right =>
    simp [blind left, blind right]

/-- Whenever a request is sent through the channel, no other one waits for its reply there. -/
def Apart (s : Session) (steps : List Step) : Prop := ∀ before step after a,
  steps = before ++ step :: after → step.request? = some a → a.path = .queued →
    ¬ (s.after before).machine.Sending

def concerns (s : Session) : Step → Option OpenCall
  | .join id => s.find? id
  | step => step.request?.map fun a => ⟨s.machine.calls.length, a.frame⟩

/-- A frame in JSON is answered with a reply as soon as its dispatch is done. The reply has the
identifier of the frame and the result that the call was told. -/
structure Replies (s : Session) (step : Step) : Prop where
  done {o name r} : s.concerns step = some o → o.frame = some (.json, name) →
    (s.take step).1.machine.calls[o.call]? = some (.answered (.result r)) →
    (s.take step).2 = .reply (Reply.toJson ⟨name, r⟩).bytes
  told {o name bytes} : s.concerns step = some o → o.frame = some (.json, name) →
    (s.take step).2 = .reply bytes →
    ∃ r, (s.take step).1.machine.calls[o.call]? = some (.answered (.result r)) ∧
      Reply.reader.decode bytes = .ok ⟨name, r⟩

/-- The same is reported twice, or the same result of the same call, each time in the form that its
caller expects: for a frame in JSON that is a reply. -/
inductive Report.Alike (o o' : Option OpenCall) : Report → Report → Prop
  | same (report : Report) : Alike o o' report report
  | told {p p' r} (left : o = some p) (right : o' = some p') (call : p.call = p'.call) :
    Alike o o' (present p (.result r)) (present p' (.result r))

structure Answers (s : Session) (step : Step) (s' : Session) (step' : Step) : Prop where
  alike : (s.take step).2.Alike (s.concerns step) (s'.concerns step') (s'.take step').2
  left : s.Replies step
  right : s'.Replies step'

/-- Two sessions go the same way with steps of their own: after each number of steps everything is
the same, and they answer each of their steps alike. -/
structure Interchangeable (s s' : Session) (steps steps' : List Step) : Prop where
  matched : ∀ n, Matched (s.after (steps.take n)).machine (s'.after (steps'.take n)).machine
  answers : ∀ n step step', steps[n]? = some step → steps'[n]? = some step' →
    Answers (s.after (steps.take n)) step (s'.after (steps'.take n)) step'

variable {d : Dispatcher} {capacity : Nat} {s s' : Session} {id : String} {o o' : OpenCall}

theorem concerns_of_asks {step : Step} {a : Asked} (asks : step.request? = some a) :
    s.concerns step = some ⟨s.machine.calls.length, a.frame⟩ := by
  cases step with
  | dispatch | frame => exact congrArg (Option.map _) asks
  | _ => cases asks

theorem Report.Alike.of_eq {x y : Report} (same : x = y) (o o' : Option OpenCall) :
    x.Alike o o' y := same ▸ .same x

theorem Report.Alike.eq_of_plain {x y : Report} (h : x.Alike (some o) (some o') y)
    (plain : o.frame = none) (plain' : o'.frame = none) : x = y := by
  cases h with
  | same => rfl
  | told left right =>
    cases left
    cases right
    simp only [present, plain, plain']

theorem take_concerns {step : Step} (concerns : s.concerns step = some o) :
    ∃ w id, s.take step = settleCall w id o (.pending id) := by
  have opens (asks : (step.request?.map fun a => ⟨s.machine.calls.length, a.frame⟩) = some o) :
      ∃ w id, s.take step = settleCall w id o (.pending id) := by
    obtain ⟨a, asked, rfl⟩ := Option.map_eq_some_iff.1 asks
    exact ⟨_, a.id, (take_request asked).trans (s.opening_eq ..)⟩
  cases step with
  | join id => exact ⟨s, id, take_join concerns⟩
  | _ => exact opens concerns

theorem present_json {name : String} (json : o.frame = some (.json, name)) (r : Result) :
    present o (.result r) = .reply (Reply.toJson ⟨name, r⟩).bytes := by
  simp [present, json, Router.reply, Codec.json, Except.mapError]

theorem settleCall_answered {a : Answer} {otherwise : Report}
    (told : s.machine.calls[o.call]? = some (.answered a)) :
    s.settleCall id o otherwise = (s.forget id, present o a) := by
  simp only [settleCall, told]

theorem replies (s : Session) (step : Step) : s.Replies step := by
  constructor
  case done =>
    intro o name r concerns json told
    obtain ⟨w, id, same⟩ := take_concerns concerns
    rw [same, machine_settleCall] at told
    rw [same, settleCall_answered told, present_json json]
  case told =>
    intro o name bytes concerns json reply
    obtain ⟨w, id, same⟩ := take_concerns concerns
    rw [same] at reply ⊢
    rw [machine_settleCall]
    unfold settleCall at reply
    split at reply
    · next a told =>
      cases a with
      | result r =>
        rw [present_json json] at reply
        cases reply
        exact ⟨r, told, (Reply.gives 125 ⟨name, r⟩).decode⟩
      | aborted r =>
        simp only [present, json] at reply
        split at reply <;> cases reply
      | _ => cases reply
    · cases reply

structure Tied (d : Dispatcher) (capacity : Nat) (s s' : Session) : Prop where
  left : Resting d capacity s.machine
  right : Resting d capacity s'.machine
  tableau : s.machine.tableau = s'.machine.tableau
  named : ∀ id, (s.find? id).map OpenCall.call = (s'.find? id).map OpenCall.call
  owns : s.ownsHistory = s'.ownsHistory

structure Accord (d : Dispatcher) (capacity : Nat) (o o' : Option OpenCall)
    (x x' : Session × Report) : Prop where
  tied : Tied d capacity x.1 x'.1
  report : x.2.Alike o o' x'.2

theorem find?_forget_self (s : Session) (id : String) : (s.forget id).find? id = none := by
  unfold forget find?
  induction s.opened with
  | nil => rfl
  | cons x opened ih =>
    by_cases same : x.1 = id
    · rwa [List.filter_cons_of_neg (by simpa using same)]
    · rw [List.filter_cons_of_pos (by simpa using same), Members.get?, if_neg (Ne.symm same), ih]

namespace Tied

variable (h : Tied d capacity s s')
include h

theorem bare_eq : s.machine.bare = s'.machine.bare := by
  rw [← h.left.base_eq, ← h.right.base_eq, h.tableau]

theorem calls_eq : s.machine.calls = s'.machine.calls := by
  have calls := congrArg Machine.calls h.bare_eq
  exact calls

theorem forget (id : String) : Tied d capacity (s.forget id) (s'.forget id) := by
  refine { h with named := fun id' => ?_ }
  by_cases same : id = id'
  · rw [← same, find?_forget_self, find?_forget_self]
  · rw [find?_forget same, find?_forget same, h.named]

theorem goOn {n n' : Machine} {f : Tableau → Tableau}
    (left : Resting d capacity n ∧ n.tableau = f s.machine.tableau)
    (right : Resting d capacity n' ∧ n'.tableau = f s'.machine.tableau) :
    Tied d capacity { s with machine := n } { s' with machine := n' } where
  left := left.1
  right := right.1
  tableau := by rw [left.2, right.2, h.tableau]
  named := h.named
  owns := h.owns

theorem move (unbroken : d.Unbroken) {v w : Move} (stays : v.givesUp = false)
    (stays' : w.givesUp = false) (apart : v.sends → ¬ s.machine.Sending)
    (apart' : w.sends → ¬ s'.machine.Sending) (same : ∀ x, Tableau.submit x v = x.submit w) :
    Tied d capacity { s with machine := s.machine.move v }
      { s' with machine := s'.machine.move w } := by
  refine h.goOn (f := fun x => (x.submit v).settle) (h.left.move unbroken stays apart) ?_
  rw [same]
  exact h.right.move unbroken stays' apart'

theorem moveAlike (unbroken : d.Unbroken) {v : Move} (stays : v.givesUp = false)
    (unsent : v.sends = false) :
    Tied d capacity { s with machine := s.machine.move v }
      { s' with machine := s'.machine.move v } := by
  have apart {m : Machine} (sends : v.sends) : ¬ m.Sending := by
    rw [unsent] at sends
    cases sends
  exact h.move unbroken stays stays apart apart fun _ => rfl

theorem refusedFrame : Tied d capacity
    { s with machine := s.machine.log [.undecodable] }
    { s' with machine := s'.machine.log [.undecodable] } :=
  h.goOn (f := fun x => { x with base := x.base.log [.undecodable] }) h.left.refusedFrame
    h.right.refusedFrame

theorem clearHistory : Tied d capacity
    { s with machine := s.machine.clearHistory }
    { s' with machine := s'.machine.clearHistory } :=
  h.goOn (f := fun x => { x with base := x.base.clearHistory }) h.left.clearHistory
    h.right.clearHistory

theorem clearEvents : Tied d capacity
    { s with machine := s.machine.clearEvents }
    { s' with machine := s'.machine.clearEvents } :=
  h.goOn (f := fun x => { x with base := x.base.clearEvents }) h.left.clearEvents
    h.right.clearEvents

theorem settleCall (unbroken : d.Unbroken) (same : o.call = o'.call) (id : String) :
    Accord d capacity (some o) (some o') (s.settleCall id o (.pending id))
      (s'.settleCall id o' (.pending id)) := by
  unfold Session.settleCall
  rw [h.calls_eq, same]
  split
  · next a told =>
    refine ⟨h.forget id, ?_⟩
    cases a with
    | result r => exact .told rfl rfl same
    | aborted r =>
      cases h.right.reachable.warranted.answers _ _ told with
      | @reply n _ mem due => cases n <;> cases due
      | aborted _ loses => exact absurd loses.breaks (unbroken.never _)
    | _ => exact .same _
  · exact ⟨h, .same _⟩

theorem withOpened {v w : Move} (moved : Tied d capacity
      { s.forget id with machine := s.machine.move v }
      { s'.forget id with machine := s'.machine.move w }) (frame frame' : Option (Codec × String)) :
    Tied d capacity (s.withOpened id frame v) (s'.withOpened id frame' w) := by
  refine { moved with named := fun id' => ?_ }
  have opens (s : Session) (frame : Option (Codec × String)) (v : Move) :
      (s.withOpened id frame v).find? id' =
        if id' = id then some ⟨s.machine.calls.length, frame⟩ else (s.forget id).find? id' := rfl
  rw [opens, opens, h.calls_eq]
  split
  · rfl
  · exact moved.named id'

theorem take_asks (unbroken : d.Unbroken) {step step' : Step} {a b : Asked}
    (asks : step.request? = some a) (asks' : step'.request? = some b) (alike : a.Alike b)
    (apart : a.path = .queued → ¬ s.machine.Sending)
    (apart' : b.path = .queued → ¬ s'.machine.Sending) :
    Accord d capacity (s.concerns step) (s'.concerns step') (s.take step) (s'.take step') := by
  rw [concerns_of_asks asks, concerns_of_asks asks', take_request asks, take_request asks']
  obtain ⟨id, frame, path, command, args⟩ := a
  obtain ⟨id', frame', path', command', args'⟩ := b
  obtain ⟨rfl, rfl, rfl⟩ := alike
  have sends {path : Path} {m : Machine} (apart : path = .queued → ¬ m.Sending)
      (sends : (Move.dispatch path command args).sends) : ¬ m.Sending := by
    cases path with
    | queued => exact apart rfl
    | attached | detached => cases sends
  have moved := (h.forget id).move unbroken (v := .dispatch path command args)
    (w := .dispatch path' command args) rfl rfl (sends apart) (sends apart') fun _ => rfl
  exact (h.withOpened moved frame frame').settleCall unbroken (by rw [h.calls_eq]) id

end Tied

structure Seen (j j' : List Note) (k k' : Nat) : Prop where
  left : k ≤ j.length
  right : k' ≤ j'.length
  seen : (j.take k).filter Note.isInner = (j'.take k').filter Note.isInner

namespace Seen

variable {j j' : List Note} {k k' : Nat}

theorem later (h : Seen j j' k k') (news news' : List Note) :
    Seen (j ++ news) (j' ++ news') k k' where
  left := List.length_append ▸ Nat.le_add_right_of_le h.left
  right := List.length_append ▸ Nat.le_add_right_of_le h.right
  seen := by
    rw [List.take_append_of_le_length h.left, List.take_append_of_le_length h.right, h.seen]

variable (same : j.filter Note.isInner = j'.filter Note.isInner)
include same

theorem all : Seen j j' j.length j'.length := by
  refine ⟨Nat.le_refl _, Nat.le_refl _, ?_⟩
  rwa [List.take_length, List.take_length]

theorem unseen (h : Seen j j' k k') {α : Type} {f : Note → Option α}
    (inner : ∀ n, n.isInner = false → f n = none) :
    (j.drop k).filterMap f = (j'.drop k').filterMap f := by
  rw [← List.take_append_drop k j, ← List.take_append_drop k' j', List.filter_append,
    List.filter_append, h.seen] at same
  rw [← filterMap_inner inner, List.append_cancel_left same, filterMap_inner inner]

end Seen

structure Paired (d : Dispatcher) (capacity : Nat) (s s' : Session) : Prop where
  tied : Tied d capacity s s'
  calls : Seen s.machine.journal s'.machine.journal s.callsSeen s'.callsSeen
  logs : Seen s.machine.journal s'.machine.journal s.logsSeen s'.logsSeen

namespace Paired

variable (h : Paired d capacity s s')
include h

theorem journal_eq : s.machine.journal.filter Note.isInner =
    s'.machine.journal.filter Note.isInner := by
  have journal := congrArg Machine.journal h.tied.bare_eq
  exact journal

theorem dispatcher_eq : s.machine.dispatcher = s'.machine.dispatcher := by
  have dispatcher := congrArg Machine.dispatcher h.tied.bare_eq
  exact dispatcher

theorem take_same (unbroken : d.Unbroken) {step : Step} (stays : ∀ id, step ≠ .abandon id)
    (none : step.request? = none) :
    Accord d capacity (s.concerns step) (s'.concerns step) (s.take step) (s'.take step) := by
  have tied := h.tied
  have dispatcher := h.dispatcher_eq
  cases step with
  | dispatch entry command args id =>
    unfold Step.request? at none
    dsimp only at none
    split at none
    · cases none
    · next refused =>
      simp only [take, refused]
      exact ⟨tied, .same _⟩
  | frame codec bytes id =>
    unfold Step.request? at none
    dsimp only at none
    split at none
    · cases none
    · next e refused =>
      simp only [take, refused]
      cases e with
      | decode text => exact ⟨(tied.forget id).refusedFrame, .same _⟩
      | _ => exact ⟨tied.forget id, .same _⟩
  | setState state id =>
    have moved := (tied.forget id).moveAlike unbroken (v := .arrange state) rfl rfl
    have same : OpenCall.call ⟨s.machine.calls.length, .none⟩ =
        OpenCall.call ⟨s'.machine.calls.length, .none⟩ := by rw [tied.calls_eq]
    have told := (tied.withOpened moved .none .none).settleCall unbroken same id
    exact ⟨told.tied, .of_eq (told.report.eq_of_plain rfl rfl) ..⟩
  | join id =>
    have named := tied.named id
    cases found : s.find? id with
    | none =>
      have found' : s'.find? id = .none := by simpa [found] using named.symm
      simp only [take, found, found']
      exact ⟨tied, .same _⟩
    | some o =>
      obtain ⟨o', found', same⟩ : ∃ o', s'.find? id = some o' ∧ o'.call = o.call := by
        simpa [found] using named.symm
      rw [take_join found, take_join found', concerns, concerns, found, found']
      exact tied.settleCall unbroken same.symm id
  | abandon id => exact absurd rfl (stays id)
  | release n => exact ⟨tied.moveAlike unbroken (v := .release n) rfl rfl, .same _⟩
  | clearHistory =>
    have cleared := tied.clearHistory
    have owns := tied.owns
    unfold take
    dsimp only
    split
    · next own =>
      rw [if_pos (owns.symm.trans own)]
      exact ⟨cleared, .same _⟩
    · next foreign =>
      rw [if_neg (owns ▸ foreign)]
      exact ⟨tied, .same _⟩
  | clearEvents => exact ⟨tied.clearEvents, .same _⟩
  | events =>
    simp only [take, dispatcher]
    split <;> exact ⟨tied, .same _⟩
  | calls =>
    have unseen := h.calls.unseen h.journal_eq (f := Note.observation?) (by rintro ⟨⟩ ⟨⟩ <;> rfl)
    exact ⟨⟨tied.left, tied.right, tied.tableau, tied.named, tied.owns⟩,
      .of_eq (congrArg Report.calls unseen) ..⟩
  | logs =>
    have unseen := h.logs.unseen h.journal_eq (f := Note.record?) (by rintro ⟨⟩ ⟨⟩ <;> rfl)
    exact ⟨⟨tied.left, tied.right, tied.tableau, tied.named, tied.owns⟩,
      .of_eq (congrArg Report.logs unseen) ..⟩
  | status | history | historyLength | registry | legalFrom | debug | serviceDebug =>
    refine ⟨tied, ?_⟩
    simp only [take, Machine.status, dispatcher]
    exact .same _

theorem take (unbroken : d.Unbroken) {step step' : Step} (alike : step.Alike step')
    (apart : ∀ a, step.request? = some a → a.path = .queued → ¬ s.machine.Sending)
    (apart' : ∀ a, step'.request? = some a → a.path = .queued → ¬ s'.machine.Sending) :
    Paired d capacity (s.take step).1 (s'.take step').1 ∧ Answers s step s' step' := by
  obtain ⟨looks, looks'⟩ := alike.looks
  obtain ⟨tied, told⟩ : Accord d capacity (s.concerns step) (s'.concerns step') (s.take step)
      (s'.take step') := by
    cases alike with
    | same stays =>
      cases asks : step.request? with
      | none => exact h.take_same unbroken stays asks
      | some a =>
        exact h.tied.take_asks unbroken asks asks ⟨rfl, rfl, rfl⟩ (apart a asks) (apart' a asks)
    | asks asks asks' alike =>
      exact h.tied.take_asks unbroken asks asks' alike (apart _ asks) (apart' _ asks')
  obtain ⟨news, journal, -⟩ := (reaches_take h.tied.left.quiet step).1.later.journal
  obtain ⟨news', journal', -⟩ := (reaches_take h.tied.right.quiet step').1.later.journal
  refine ⟨⟨tied, ?_, ?_⟩, told, replies s step, replies s' step'⟩
  · by_cases calls : step = .calls
    · obtain rfl := looks.1 calls
      subst calls
      exact .all h.journal_eq
    · rw [callsSeen_take calls, callsSeen_take (mt looks.2 calls), journal, journal']
      exact h.calls.later news news'
  · by_cases logs : step = .logs
    · obtain rfl := looks'.1 logs
      subst logs
      exact .all h.journal_eq
    · rw [logsSeen_take logs, logsSeen_take (mt looks'.2 logs), journal, journal']
      exact h.logs.later news news'

end Paired

theorem sends_of_queued {step : Step} {a : Asked} (asks : step.request? = some a)
    (queued : a.path = .queued) : step.sends := by
  cases step with
  | dispatch entry command args id =>
    unfold Step.request? at asks
    dsimp only at asks
    split at asks
    · cases asks
      cases entry <;> first | rfl | cases queued
    · cases asks
  | frame codec bytes id =>
    unfold Step.request? at asks
    dsimp only at asks
    split at asks
    · cases asks
      cases queued
    · cases asks
  | _ => cases asks

theorem apart_of_unsent {steps : List Step} (unsent : ∀ step ∈ steps, step.sends = false) :
    s.Apart steps := by
  rintro before step after a rfl asks queued
  have never := unsent step (by simp)
  rw [sends_of_queued asks queued] at never
  cases never

theorem Apart.cons {step : Step} {steps : List Step} (first : ¬ s.machine.Sending)
    (rest : (s.take step).1.Apart steps) : s.Apart (step :: steps) := by
  rintro (_ | ⟨_, before⟩) next after a same asks queued
  · exact first
  · cases same
    exact rest before next after a rfl asks queued

theorem Apart.tail {step : Step} {steps : List Step} (apart : s.Apart (step :: steps)) :
    (s.take step).1.Apart steps := by
  rintro before step' after a rfl
  exact apart (step :: before) step' after a rfl

theorem Paired.interchangeable (h : Paired d capacity s s') (unbroken : d.Unbroken)
    {steps steps' : List Step} (alike : List.Forall₂ Step.Alike steps steps')
    (apart : s.Apart steps) (apart' : s'.Apart steps') : Interchangeable s s' steps steps' := by
  have matched {s s' : Session} (h : Paired d capacity s s') : Matched s.machine s'.machine :=
    matched_of_bare h.tied.bare_eq
  induction alike generalizing s s' with
  | nil =>
    constructor
    case matched =>
      intro n
      rw [List.take_nil]
      exact matched h
    case answers =>
      intro n step step' here
      simp at here
  | @cons step step' steps steps' first rest ih =>
    obtain ⟨next, answers⟩ := h.take unbroken first (fun a => apart [] step steps a rfl)
      fun a => apart' [] step' steps' a rfl
    have later := ih next apart.tail apart'.tail
    constructor
    case matched =>
      rintro (_ | n)
      · exact matched h
      · exact later.matched n
    case answers =>
      rintro (_ | n) _ _ here here'
      · cases here
        cases here'
        exact answers
      · exact later.answers n _ _ here here'

/-- The steps that ask for a dispatch under a name: by any entry, or with a frame in JSON that has
any identifier and any label of the command. Null and no arguments at all are an empty document. -/
inductive Asking (id : String) (command : Command) : Args → Step → Prop
  | entry (entry : Entry) (args : Args) :
    Asking id command args (.dispatch entry command args.toJson id)
  | entryNull (entry : Entry) : Asking id command .empty (.dispatch entry command .null id)
  | frame {name label args} (parses : Command.parse label = .ok command)
    (ordered : args.toJson.Ordered) (integral : args.toJson.Integral)
    (fits : args.toJson.depth ≤ 126) :
    Asking id command args (.frame .json (Envelope.toJson ⟨name, label, args.toJson⟩).bytes id)
  | frameNull {name label} (parses : Command.parse label = .ok command) :
    Asking id command .empty (.frame .json (Envelope.toJson ⟨name, label, .null⟩).bytes id)
  | frameAbsent {name label} (parses : Command.parse label = .ok command) :
    Asking id command .empty
      (.frame .json (Json.object [("id", .string name), ("cmd", .string label)]).bytes id)
  | frameAccepted {name bytes args}
    (accepts : Router.accept .json bytes = .ok (name, ⟨command, args⟩)) :
    Asking id command args (.frame .json bytes id)

inductive ByHarness (id : String) (args : Option Args) : Command → Step → Prop
  | dispatch (command : Command) : ByHarness id args command (.harness command args id)
  | start : ByHarness id args .start (.harnessStart args id)
  | stop : ByHarness id args .stop (.harnessStop args id)
  | pause : ByHarness id args .pause (.harnessPause args id)
  | resume : ByHarness id args .resume (.harnessResume args id)
  | reload : ByHarness id args .reload (.harnessReload args id)
  | healthCheck : ByHarness id args .healthCheck (.harnessHealthCheck args id)
  | recover : ByHarness id args .recover (.harnessRecover args id)

theorem ByHarness.asking {args : Option Args} {command : Command} {step : Step}
    (h : ByHarness id args command step) :
    Asking id command (args.getD (Args.Canonical.default command)) step := by
  have same : step = .harness command args id := by cases h <;> rfl
  rw [same]
  cases args with
  | none => exact .entryNull .harness
  | some args => exact .entry .harness args

theorem decode_json {bytes : Bytes} {e : Envelope}
    (decoded : Envelope.reader.decode bytes = .ok e) : Codec.json.decode bytes = .ok e := by
  simp [Codec.json, decoded, Except.mapError]

theorem Asking.asks {command : Command} {args : Args} {step : Step}
    (h : Asking id command args step) :
    ∃ a, step.request? = some a ∧ a.id = id ∧ a.command = command ∧ a.args = args := by
  have framed {bytes : Bytes} {name : String} {args : Args}
      (accepts : Router.accept .json bytes = .ok (name, ⟨command, args⟩)) :
      ∃ a, (Step.frame .json bytes id).request? = some a ∧ a.id = id ∧ a.command = command ∧
        a.args = args := by
    rw [Step.request?, accepts]
    exact ⟨_, rfl, rfl, rfl, rfl⟩
  cases h with
  | entry entry =>
    have document : documentFor entry command args.toJson = .ok args := by
      cases entry <;> rfl
    rw [Step.request?, document]
    exact ⟨_, rfl, rfl, rfl, rfl⟩
  | entryNull entry =>
    have document : documentFor entry command .null = .ok .empty := by
      cases entry <;> rfl
    rw [Step.request?, document]
    exact ⟨_, rfl, rfl, rfl, rfl⟩
  | @frame name label _ parses ordered integral fits =>
    have decoded : Envelope.reader.decode (Envelope.toJson ⟨name, label, args.toJson⟩).bytes =
        .ok ⟨name, label, args.toJson⟩ :=
      (Envelope.gives 126 ordered integral).decode.trans (if_pos fits)
    exact framed (Router.Verdict.asks (decode_json decoded) parses (.inr rfl)).accept
  | @frameNull name label parses =>
    have decoded : Envelope.reader.decode (Envelope.toJson ⟨name, label, .null⟩).bytes =
        .ok ⟨name, label, .null⟩ :=
      (Envelope.gives 126 (e := ⟨name, label, .null⟩) trivial trivial).decode
    exact framed (Router.Verdict.asks (decode_json decoded) parses (.inl ⟨rfl, rfl⟩)).accept
  | @frameAbsent name label parses =>
    have gives : Gives Envelope.reader 127 (.object [("id", .string name), ("cmd", .string label)])
        (.ok ⟨name, label, .null⟩) := by
      refine Record.Fills.gives <|
        .field rfl (by decide) (Record.gives_field (Reader.gives_string 126 name)) <|
        .field rfl (by decide) (Record.gives_field (Reader.gives_string 126 label)) <|
        .done rfl
    exact framed (Router.Verdict.asks (decode_json gives.decode) parses (.inl ⟨rfl, rfl⟩)).accept
  | frameAccepted accepts => exact framed accepts

/-- As long as history and sink never break down, all ways to a dispatcher are interchangeable.
Whatever steps ask for a dispatch, by an entry or with a frame, any of them may stand for any other;
and two sessions that differ only in that, and in which nobody gives up, go the same way, provided
that no more than one request at a time is in the channel. -/
theorem entries_interchangeable (unbroken : d.Unbroken) :
    (∀ id command args step step', Asking id command args step → Asking id command args step' →
      Step.Alike step step') ∧
    ∀ capacity owns steps steps', List.Forall₂ Step.Alike steps steps' →
      (fresh d capacity owns).Apart steps → (fresh d capacity owns).Apart steps' →
      Interchangeable (fresh d capacity owns) (fresh d capacity owns) steps steps' := by
  constructor
  · intro id command args step step' asking asking'
    obtain ⟨a, asks, rfl, rfl, rfl⟩ := asking.asks
    obtain ⟨b, asks', id, command, args⟩ := asking'.asks
    exact .asks asks asks' ⟨id.symm, command.symm, args.symm⟩
  · intro capacity owns steps steps' alike apart apart'
    have rests : Resting d capacity (.start d capacity) :=
      ⟨⟨.refl, nofun, ⟨rfl, rfl, rfl⟩⟩, isQuiet_start d capacity⟩
    have seen : Seen [] [] 0 0 := ⟨Nat.le_refl _, Nat.le_refl _, rfl⟩
    have paired : Paired d capacity (fresh d capacity owns) (fresh d capacity owns) :=
      ⟨⟨rests, rests, rfl, fun _ => rfl, rfl⟩, seen, seen⟩
    exact paired.interchangeable unbroken alike apart apart'

/-- Two callers come while a start is blocked, one of them with a frame. -/
theorem entries_interchangeable_while_start_blocks :
    let plain : List Step := [.dispatch .direct .start .null "a", .dispatch .direct .stop .null "b",
      .release 2, .join "a", .join "b"]
    let mixed : List Step := [.dispatch .channel .start .null "a",
      .frame .json (Envelope.toJson ⟨"7", " Stop", .null⟩).bytes "b", .release 2, .join "a",
      .join "b"]
    Interchangeable (fresh .patient 1 true) (fresh .patient 1 true) plain mixed ∧
      ((fresh .patient 1 true).after plain).machine.status = { state := .stopped } ∧
      ((fresh .patient 1 true).after mixed).machine.status = { state := .stopped } := by
  intro plain mixed
  have ways := entries_interchangeable (d := .patient) ⟨fun _ => rfl, fun _ => rfl⟩
  have stop : Command.parse " Stop" = .ok .stop := by decide
  have same := ways.2 1 true plain mixed
    (.cons (ways.1 _ _ _ _ _ (.entryNull .direct) (.entryNull .channel)) <|
      .cons (ways.1 _ _ _ _ _ (.entryNull .direct) (.frameNull stop)) <|
      .cons (.same nofun) <| .cons (.same nofun) <| .cons (.same nofun) .nil)
    (apart_of_unsent (by simp [plain, Step.sends]))
    (.cons (by simp [Sending, fresh, Machine.start]) (apart_of_unsent (by simp [Step.sends])))
  have stopped : ((fresh .patient 1 true).after plain).machine.status = { state := .stopped } := rfl
  exact ⟨same, stopped, (same.matched 5).callers.status.symm.trans stopped⟩

end Session

end Lifecycle
