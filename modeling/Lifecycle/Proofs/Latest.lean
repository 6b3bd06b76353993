import Lifecycle.Proofs.Abandonment
import Lifecycle.Proofs.Course
import Lifecycle.Proofs.Linearization
import Lifecycle.Proofs.Results
import Lifecycle.Proofs.Sessions

/-! What is published is what the latest uses of the gate left. The state is that of the latest
dispatch or arrangement that has finished, the last error that of the latest dispatch that has one
to tell of or a state to show for it; only a health check that succeeds leaves it alone. -/

namespace Lifecycle

inductive Deed
  | dispatched (result : Result)
  | arranged (state : State)

namespace Deed

def state : Deed → State
  | dispatched r => r.resulting
  | arranged s => s

/-- What it leaves as the last error, if it does not leave that alone. -/
def error? : Deed → Option (Option String)
  | dispatched r => if r.command = .healthCheck ∧ r.success then none else some r.errorMessage
  | arranged _ => none

end Deed

/-- The use of the gate that came to its end then. The result of a dispatch is the one that was
appended to the history, the state of an arrangement the one in its ticket. -/
def Note.deed? (tickets : Nat → Option Ticket) : Note → Option Deed
  | .appended _ result => some (.dispatched result)
  | .left call => match (tickets call).map Ticket.work with
    | some (.arrange state) => some (.arranged state)
    | _ => none
  | _ => none

def deeds (j : List Note) : List Deed := j.filterMap (Note.deed? (ticketOf j))

/-- The status after some uses of the gate of a dispatcher that was fresh before. -/
def Status.ofDeeds (ds : List Deed) : Status where
  state := (ds.getLast?.map Deed.state).getD .unspecified
  lastError := (ds.filterMap Deed.error?).getLast?.join

theorem Status.ofDeeds_snoc (ds : List Deed) (x : Deed) :
    ofDeeds (ds ++ [x]) = ⟨x.state, x.error?.getD (ofDeeds ds).lastError⟩ := by
  unfold ofDeeds
  rw [List.getLast?_concat, List.filterMap_append]
  cases none : x.error? <;> simp [none]

theorem Decision.status_of_dispatched {command : Command} {ds : List Deed} {decision : Decision}
    (proper : decision.Proper command (Status.ofDeeds ds).state) :
    Status.ofDeeds (ds ++ [.dispatched (decision.result command (Status.ofDeeds ds).state)]) =
      decision.status command (Status.ofDeeds ds) := by
  rw [Status.ofDeeds_snoc]
  generalize Status.ofDeeds ds = found at proper
  cases decision with
  | commit next =>
    by_cases checks : command = .healthCheck
    · simp [Deed.state, Deed.error?, result, Result.succeeded, Decision.status, checks,
        proper checks]
    · simp [Deed.state, Deed.error?, result, Result.succeeded, Decision.status, checks,
        Status.commit]
  | refuse failure | fail failure =>
    simp [Deed.state, Deed.error?, result, Result.failed, Decision.status, Status.recordError,
      Status.commit]

/-- What has been published and will be over when it is recorded, or when the gate is left. -/
def Phase.deed? : Phase → Option Deed
  | published _ result _ => some (.dispatched result)
  | done t => match t.work with
    | .arrange state => some (.arranged state)
    | _ => none
  | _ => none

namespace Lawful

variable {d : Dispatcher} {j : List Note} {a b : Standing} {n : Note} {t : Ticket}

theorem deeds_snoc (h : Lawful d j a) :
    deeds (j ++ [n]) = deeds j ++ (n.deed? (ticketOf (j ++ [n]))).toList := by
  rw [deeds, filterMap_snoc]
  refine congrArg (· ++ _) (List.filterMap_congr fun k mem => ?_)
  cases k with
  | left call =>
    obtain ⟨t, known, -⟩ := h.left mem
    simp only [Note.deed?, known, ticketOf_of_append [n] known]
  | _ => rfl

theorem work_of_recorded (h : Lawful d j a) :
    ((∃ r e, a.phase = .published t r e) ∨ ∃ e, a.phase = .appended t e) →
      ∃ command args, t.work = .dispatch command args := by
  induction h with
  | nil => simp
  | snoc before next ih =>
    cases next with
    | aside => exact ih
    | refuse work =>
      rintro (⟨_, _, same⟩ | ⟨_, same⟩) <;> cases same
      exact ⟨_, _, work⟩
    | decide =>
      obtain ⟨-, args, _, _, _, work, -⟩ := before.of_running
      rintro (⟨_, _, same⟩ | ⟨_, same⟩) <;> cases same
      exact ⟨_, _, work⟩
    | append =>
      rintro (⟨_, _, same⟩ | ⟨_, same⟩) <;> cases same
      exact ih (.inl ⟨_, _, rfl⟩)
    | _ => simp

theorem proper {call : Nat} {outcome : Option Outcome} {result : Result} {status : Status}
    (h : Lawful d j a) (next : Follows d j a (.committed call outcome result status) b) :
    ∃ t command, ∃ decision : Decision, decision.Proper command a.status.state ∧
      result = decision.result command a.status.state ∧
      status = decision.status command a.status ∧
      b.phase = .published t result (decision.event command a.status.state) := by
  obtain ⟨t, command, _, decision, -, -, -, -, decided, same, published, phase⟩ := h.decision next
  rw [← h.status_eq] at decided same published phase
  exact ⟨t, command, decision, Dispatcher.proper_decision decided, same, published, phase⟩

theorem status_of_decided {call : Nat} {outcome : Option Outcome} {result : Result}
    {status : Status} {ds : List Deed} (h : Lawful d j a)
    (next : Follows d j a (.committed call outcome result status) b)
    (now : a.status = .ofDeeds ds) : status = .ofDeeds (ds ++ b.phase.deed?.toList) := by
  obtain ⟨t, command, decision, proper, rfl, rfl, phase⟩ := h.proper next
  rw [phase, Phase.deed?, Option.toList_some]
  rw [now] at proper ⊢
  exact (decision.status_of_dispatched proper).symm

/-- What is published is what the uses of the gate that are over have left, and the one that is to
be recorded. -/
theorem status_of_deeds (fresh : d.status = {}) (unbroken : d.Unbroken) (h : Lawful d j a) :
    a.status = .ofDeeds (deeds j ++ a.phase.deed?.toList) := by
  induction h with
  | nil => exact fresh
  | @snoc j a n b before next ih =>
    have follows := next
    rw [before.deeds_snoc]
    cases next with
    | aside silent => cases n <;> first | simpa [Note.deed?] using ih | cases silent
    | enter | run => simpa [Note.deed?, Phase.deed?] using ih
    | refuse | decide =>
      have now := before.status_of_decided follows (by simpa [Phase.deed?] using ih)
      simpa [Note.deed?] using now
    | @arrange s t state work =>
      have due : (Phase.done t).deed? = some (.arranged state) := by simp [Phase.deed?, work]
      have now : s = .ofDeeds (deeds j) := by simpa [Phase.deed?] using ih
      have arranged : Status.ofDeeds (deeds j ++ [.arranged state]) = s.arrange state := by
        rw [Status.ofDeeds_snoc, ← now]
        rfl
      simpa [Note.deed?, due] using arranged.symm
    | append => simpa [Note.deed?, Phase.deed?] using ih
    | announce =>
      obtain ⟨command, args, work⟩ := before.work_of_recorded (.inr ⟨_, rfl⟩)
      simpa [Note.deed?, Phase.deed?, work] using ih
    | @leave s t =>
      have known := ticketOf_of_append [.left t.call] (before.known rfl)
      cases work : t.work <;> simpa [Note.deed?, Phase.deed?, known, work] using ih
    | @giveUp s t =>
      have known := ticketOf_of_append [.left t.call] (before.known rfl)
      obtain ⟨-, _, _, _, _, work, -⟩ := before.of_running
      simpa [Note.deed?, Phase.deed?, known, work] using ih
    | @loseResult _ _ _ _ k _ breaks => simp [unbroken.1 k] at breaks
    | @loseEvent _ _ _ k _ breaks => simp [unbroken.2 k] at breaks

theorem arranged_keeps {before since : List Note} {call : Nat} {s : Status}
    (h : Lawful d (before ++ .arranged call s :: since) a) :
    ∃ t state, ticketOf before call = some t ∧ t.work = .arrange state ∧
      s = (statusAfter d.status before).arrange state := by
  obtain ⟨b, c, upTo, next, -⟩ := h.at_note
  have now := upTo.status_eq
  cases next with
  | aside silent => cases silent
  | arrange work => exact ⟨_, _, upTo.known rfl, work, now ▸ rfl⟩

end Lawful

namespace Machine

variable {d : Dispatcher} {capacity : Nat} {m : Machine}

theorem status_abandon (m : Machine) (call : Nat) :
    (m.submit (.abandon call)).status = m.status := by
  have g := m.givesUp_abandon call
  rw [submit]
  generalize m.abandon call = m' at g
  cases g with
  | settled | withdraws => rfl
  | handsOn waits inside =>
    cases line : m.gate.waiting with
    | nil =>
      rw [passOn_of_nil inside line]
      rfl
    | cons u us =>
      rw [passOn_of_cons inside line]
      rfl

theorem deeds_of_refused {s : Session} {codec : Codec} {bytes : Bytes} {id : String}
    {e : RouterError} (refused : Router.accept codec bytes = .error e) :
    (s.take (.frame codec bytes id)).1.machine.status = s.machine.status ∧
      deeds (s.take (.frame codec bytes id)).1.machine.journal = deeds s.machine.journal := by
  have kept (r : LogRecord) : ticketOf (s.machine.journal ++ [.logged r]) =
      ticketOf s.machine.journal := by
    funext call
    simp [ticketOf, Note.ticket?]
  rw [Session.take, refused]
  cases e with
  | decode text =>
    refine ⟨rfl, ?_⟩
    simp [deeds, log, Note.deed?, kept]
  | _ => exact ⟨rfl, rfl⟩

/-- What is published is what the uses of the gate that are over have left. -/
structure ShowsLatest (m : Machine) : Prop where
  rests : m.isQuiet → m.AtRest
  state : m.AtRest →
    m.state = ((deeds m.journal).getLast?.map Deed.state).getD .unspecified
  lastError : m.AtRest →
    m.status.lastError = ((deeds m.journal).filterMap Deed.error?).getLast?.join
  arranged : ∀ before call s since, m.journal = before ++ .arranged call s :: since →
    ∃ t state, ticketOf before call = some t ∧ t.work = .arrange state ∧
      s = ⟨state, (statusAfter {} before).lastError⟩
  mute : m.Mute
  givesUp : ∀ call, (m.submit (.abandon call)).status = m.status
  refused : ∀ s : Session, s.machine = m → ∀ codec bytes id e,
    Router.accept codec bytes = .error e →
    (s.take (.frame codec bytes id)).1.machine.status = m.status ∧
      deeds (s.take (.frame codec bytes id)).1.machine.journal = deeds m.journal

/-- At every moment at which all that was published is recorded, and so whenever nothing can go on,
a dispatcher whose history and sink do not break down shows what the latest uses of its gate left,
and nothing else has any part in it. -/
theorem status_shows_latest (fresh : d.status = {}) (unbroken : d.Unbroken)
    (h : Reachable d capacity m) : m.ShowsLatest := by
  have shows (atRest : m.AtRest) : m.status = .ofDeeds (deeds m.journal) := by
    have none : m.gate.phase.deed? = none := by
      rcases atRest.phase.1 with undecided | free
      · cases phase : m.gate.phase <;> simp_all [Phase.undecided, Phase.deed?]
      · cases phase : m.gate.phase <;> simp_all [Phase.ticket?, Phase.deed?]
    have now : m.status = _ := h.lawful.status_of_deeds fresh unbroken
    rwa [none, Option.toList_none, List.append_nil] at now
  constructor
  case rests => exact h.atRest_of_quiet
  case state => exact fun atRest => congrArg Status.state (shows atRest)
  case lastError => exact fun atRest => congrArg Status.lastError (shows atRest)
  case arranged =>
    intro before call s since same
    have kept := (same ▸ h.lawful).arranged_keeps
    rwa [fresh] at kept
  case mute => exact h.mute
  case givesUp => exact m.status_abandon
  case refused =>
    rintro s rfl codec bytes id e refused
    exact deeds_of_refused refused

/-- A start has finished, a resume was refused, the state was forced, the health is checked, and a
stop is blocked. -/
theorem status_shows_latest_while_stop_blocks :
    ∃ m, Reachable .patient 1 m ∧ m.gate.isFree = false ∧ m.ShowsLatest ∧
      (deeds m.journal).length = 4 ∧ m.state = .paused ∧ m.status.lastError.isSome := by
  have reachable := reachable_run .patient 1
    [.dispatch .attached .start .empty, .release 1, .dispatch .queued .resume .empty,
      .arrange .paused, .release 1, .dispatch .detached .healthCheck .empty,
      .dispatch .attached .stop .empty]
  have latest := status_shows_latest rfl ⟨fun _ => rfl, fun _ => rfl⟩ reachable
  refine ⟨_, reachable, ?_, latest, ?_, ?_, ?_⟩ <;> rfl

end Machine

end Lifecycle
