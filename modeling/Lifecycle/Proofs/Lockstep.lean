import Lifecycle.Proofs.Change

/-! Two machines that go in step. A relation under which both find the same where it matters and
which survives every small change made to both survives their turns and the moves of their callers
too, although something else may be different in the two. -/

namespace Lifecycle.Machine

/-- Whatever is done only for this call makes no difference. -/
structure Unheard (S : Machine → Machine → Prop) (call : Nat) : Prop where
  answer : ∀ {m n}, S m n → ∀ a, S (m.answer call a) n ∧ S m (n.answer call a)
  log : ∀ {m n}, S m n → ∀ records, S (m.log records) n ∧ S m (n.log records)
  wake : ∀ {m n}, S m n → ∀ command payload,
    S (m.wake (.report call command payload)) n ∧ S m (n.wake (.report call command payload))

/-- Machines so related find the same and stay so related with every small change. One call may be
an exception, if nothing that is done for it makes a difference. -/
structure Lockstep (S : Machine → Machine → Prop) : Prop where
  channel : ∀ {m n}, S m n → m.channel = n.channel
  gate : ∀ {m n}, S m n → m.gate = n.gate
  permits : ∀ {m n}, S m n → m.permits = n.permits
  status : ∀ {m n}, S m n → m.status = n.status
  length : ∀ {m n}, S m n → m.calls.length = n.calls.length
  runs : ∀ {m n}, S m n → ∀ command, m.runs command = n.runs command
  hasRoom : ∀ {m n}, S m n → m.hasRoom = n.hasRoom
  isBlocked : ∀ {m n}, S m n → m.isBlocked = n.isBlocked
  isPending : ∀ {m n}, S m n → ∀ call, m.isPending call = n.isPending call ∨ Unheard S call
  withChannel : ∀ {m n}, S m n → ∀ channel, S { m with channel } { n with channel }
  withGate : ∀ {m n}, S m n → ∀ gate, S { m with gate } { n with gate }
  withPermits : ∀ {m n}, S m n → ∀ permits, S { m with permits } { n with permits }
  setStatus : ∀ {m n}, S m n → ∀ s, S (m.setStatus s) (n.setStatus s)
  note : ∀ {m n}, S m n → ∀ x, x.record? = none → S (m.note x) (n.note x)
  log : ∀ {m n}, S m n → ∀ records, S (m.log records) (n.log records)
  wake : ∀ {m n}, S m n → ∀ turn, S (m.wake turn) (n.wake turn)
  resume : ∀ {m n}, S m n → ∀ turn, S (m.resume turn) (n.resume turn)
  putOff : ∀ {m n}, S m n → ∀ turn, S (m.putOff turn) (n.putOff turn)
  setProgress : ∀ {m n}, S m n → ∀ call p, S (m.setProgress call p) (n.setProgress call p)
  opened : ∀ {m n}, S m n →
    S { m with calls := m.calls ++ [.pending] } { n with calls := n.calls ++ [.pending] }
  recordCost : ∀ {m n}, S m n → m.recordCost = n.recordCost
  record : ∀ {m n}, S m n → ∀ call r e, S (m.record call r e).1 (n.record call r e).1 ∧
    (m.record call r e).2 = (n.record call r e).2

/-- Both prepare the holder's dispatch alike if it has not begun. -/
def PreparesAs (m n : Machine) : Prop :=
  ∀ t, m.gate.holder = some ⟨t, .admitted⟩ → ∀ command args, t.work = .dispatch command args →
    m.dispatcher.prepare command = n.dispatcher.prepare command

namespace Lockstep

variable {S : Machine → Machine → Prop} {m n : Machine} (alike : Lockstep S) (h : S m n)
include alike h

theorem state : m.state = n.state := congrArg Status.state (alike.status h)

theorem answer (call : Nat) (a : Answer) : S (m.answer call a) (n.answer call a) := by
  -- Where only one of them may wait, the call is the exception, and each is told in turn.
  rcases alike.isPending h call with same | unheard
  · unfold Machine.answer
    rw [same]
    split
    · exact alike.setProgress h ..
    · exact h
  · exact (unheard.answer (unheard.answer h a).1 a).2

theorem answers (ps : List Post) (a : Answer) :
    S (ps.foldl (fun m p => m.answer p.call a) m) (ps.foldl (fun m p => m.answer p.call a) n) := by
  induction ps generalizing m n with
  | nil => exact h
  | cons p ps ih => exact ih (alike.answer h p.call a)

theorem passOn : S m.passOn n.passOn := by
  unfold Machine.passOn
  rw [alike.gate h]
  cases n.gate.holder with
  | none =>
    have passed := alike.withGate h n.gate.leave
    dsimp only
    split
    · exact passed
    · exact alike.wake (alike.note passed _ rfl) _
  | some x =>
    have passed := alike.withGate (alike.note h (.left x.ticket.call) rfl) n.gate.leave
    dsimp only
    split
    · exact passed
    · exact alike.wake (alike.note passed _ rfl) _

theorem bury (call : Nat) : S (m.bury call) (n.bury call) := by
  have own := alike.answer h call (.undelivered .replyDropped)
  have queued := alike.answers own (n.answer call (.undelivered .replyDropped)).channel.queue
    (.undelivered .replyDropped)
  unfold Machine.bury
  dsimp only
  rw [alike.channel own]
  generalize List.foldl _ (m.answer call (.undelivered .replyDropped)) _ = m' at queued ⊢
  generalize List.foldl _ (n.answer call (.undelivered .replyDropped)) _ = n' at queued ⊢
  have waiting := alike.answers queued n'.channel.waiting (.undelivered .closed)
  rw [alike.channel queued]
  generalize List.foldl _ m' _ = m'' at waiting ⊢
  generalize List.foldl _ n' _ = n'' at waiting ⊢
  rw [alike.channel waiting]
  exact alike.withChannel waiting _

theorem reports (call : Nat) (command : Command) (payload : Payload) :
    S (if m.isPending call then m.wake (.report call command payload) else m)
      (if n.isPending call then n.wake (.report call command payload) else n) := by
  rcases alike.isPending h call with same | unheard
  · rw [same]
    split
    · exact alike.wake h _
    · exact h
  · split <;> split
    · exact alike.wake h _
    · exact (unheard.wake h ..).1
    · exact (unheard.wake h ..).2
    · exact h

theorem replies (call : Nat) (a : Answer) :
    S (if m.isPending call then m.answer call a else m.log [.replyAbandoned])
      (if n.isPending call then n.answer call a else n.log [.replyAbandoned]) := by
  rcases alike.isPending h call with same | unheard
  · rw [same]
    split
    · exact alike.answer h ..
    · exact alike.log h _
  · split <;> split
    · exact alike.answer h ..
    · exact (unheard.log (unheard.answer h a).1 _).2
    · exact (unheard.log (unheard.answer h a).2 _).1
    · exact alike.log h _

theorem conclude (t : Ticket) (command : Command) (ending : Ending) (share : Nat) :
    S (m.conclude t command ending share) (n.conclude t command ending share) := by
  have left := alike.passOn h
  unfold Machine.conclude
  cases t.seat <;> cases ending
  case task.brokeDown payload => exact alike.reports left ..
  case worker.done a => exact alike.resume (alike.replies left ..) _
  case worker.brokeDown payload => exact alike.bury left _
  all_goals exact alike.answer left ..

theorem commit (call : Nat) (command : Command) (previous : State) (outcome : Option Outcome)
    (d : Decision) :
    S (m.commit call command previous outcome d) (n.commit call command previous outcome d) := by
  have logged := alike.log h [d.log command previous]
  unfold Machine.commit
  dsimp only
  rw [alike.status logged]
  exact alike.note (alike.setStatus logged _) _ rfl

theorem wrapUp (t : Ticket) (r : Result) (e : Event) (share : Nat) :
    S (m.wrapUp t r e share) (n.wrapUp t r e share) := by
  obtain ⟨recorded, same⟩ := alike.record h t.call r e
  unfold Machine.wrapUp
  rw [alike.recordCost h, alike.gate h]
  split
  · exact alike.putOff (alike.withGate h _) _
  · dsimp only
    rw [same]
    exact alike.conclude recorded ..

theorem finish (t : Ticket) (command : Command) (previous : State) (outcome : Option Outcome)
    (d : Decision) (share : Nat) : S (m.finish t command previous outcome d share)
      (n.finish t command previous outcome d share) :=
  alike.wrapUp (alike.commit h ..) ..

theorem advance (t : Ticket) (r : Run) (share : Nat) :
    S (m.advance t r share) (n.advance t r share) := by
  unfold Machine.advance
  rw [alike.permits h, alike.gate h]
  generalize min (min r.permits n.permits) share = got
  have taken := alike.withGate (alike.withPermits h (n.permits - got)) { n.gate with
    holder := some ⟨t, .running { r with permits := r.permits - got }⟩ }
  dsimp only
  split
  · exact alike.finish taken ..
  · split
    · exact alike.putOff taken _
    · exact taken

theorem begin {t : Ticket} (prepares : ∀ command args, t.work = .dispatch command args →
    m.dispatcher.prepare command = n.dispatcher.prepare command) (share : Nat) :
    S (m.begin t share) (n.begin t share) := by
  unfold Machine.begin
  split
  · next state _ =>
    have logged := alike.log h [.arranged state]
    dsimp only
    rw [alike.status logged]
    exact alike.answer (alike.passOn (alike.note (alike.setStatus logged _) _ rfl)) ..
  · next command args work =>
    rw [prepares command args work, alike.state h]
    split
    · exact alike.finish h ..
    · dsimp only
      rw [alike.runs h]
      exact alike.advance (alike.note h _ rfl) ..

theorem proceed (prepares : m.PreparesAs n) (share : Nat) :
    S (m.proceed share) (n.proceed share) := by
  unfold Machine.proceed
  rw [← alike.gate h]
  split
  · exact h
  · next holding held =>
    obtain ⟨t, stage⟩ := holding
    cases stage with
    | admitted => exact alike.begin h (prepares t held) share
    | running r => exact alike.advance h ..
    | published r e => exact alike.wrapUp h ..

theorem arrive (t : Ticket) (share : Nat) : S (m.arrive t share) (n.arrive t share) := by
  cases share with
  | zero => exact alike.putOff h _
  | succ share =>
    unfold Machine.arrive
    rw [alike.gate h]
    have entered := alike.withGate h (n.gate.enter t)
    dsimp only
    split
    · exact alike.resume (alike.note entered _ rfl) _
    · exact entered

theorem enqueue (p : Post) : S (m.enqueue p) (n.enqueue p) := by
  unfold Machine.enqueue
  rw [alike.channel h]
  have queued := alike.note (alike.withChannel h { n.channel with
    queue := n.channel.queue ++ [p] }) (.queued p.call) rfl
  dsimp only
  split
  · exact alike.wake (alike.withChannel queued _) _
  · exact queued

theorem place (p : Post) : S (m.place p) (n.place p) := by
  unfold Machine.place
  rw [alike.channel h]
  split
  · exact alike.answer h ..
  · exact alike.enqueue h p

theorem collect (share : Nat) : S (m.collect share) (n.collect share) := by
  cases share with
  | zero => exact alike.putOff h _
  | succ share =>
    unfold Machine.collect
    rw [alike.channel h]
    dsimp only
    split
    · exact alike.withChannel h _
    · next p queue _ =>
      have taken := alike.note (alike.withChannel h { n.channel with queue }) (.taken p.call) rfl
      dsimp only [Machine.note]
      split
      · exact alike.arrive taken ..
      · exact alike.arrive (alike.wake (alike.withChannel taken _) _) ..

theorem report (call : Nat) (command : Command) (payload : Payload) :
    S (m.report call command payload) (n.report call command payload) := by
  have logged := alike.log h [.aborted command]
  unfold Machine.report
  dsimp only
  rw [alike.state logged]
  exact alike.answer logged ..

theorem take {turn : Turn} (prepares : turn.isProceed → m.PreparesAs n) :
    S (m.take turn) (n.take turn) := by
  cases turn with
  | arrive t => exact alike.arrive h t fairShare
  | proceed share => exact alike.proceed h (prepares rfl) share
  | collect share => exact alike.collect h share
  | place p => exact alike.place h p
  | report call command payload => exact alike.report h call command payload

theorem step (ready : m.ready = n.ready) (deferred : m.deferred = n.deferred)
    (picks : ∀ ready deferred, S { m with ready, deferred } { n with ready, deferred })
    (prepares : ∀ turn, m.turns.head? = some turn → turn.isProceed → m.PreparesAs n) :
    S m.step n.step := by
  unfold Machine.step
  rw [← ready, ← deferred]
  split
  · next turn rest same =>
    refine alike.take (deferred ▸ picks rest m.deferred) (prepares turn ?_)
    rw [turns, same]
    rfl
  · next turn rest none same =>
    refine alike.take (picks rest []) (prepares turn ?_)
    rw [turns, none, same]
    rfl
  · exact h

theorem openCall (t : Ticket) : S (m.openCall t) (n.openCall t) :=
  alike.note (alike.opened h) (.opened t) rfl

theorem send (p : Post) : S (m.send p) (n.send p) := by
  unfold Machine.send
  rw [alike.channel h, alike.hasRoom h]
  split
  · exact alike.answer h ..
  · split
    · exact alike.enqueue h p
    · exact alike.withChannel h _

theorem dispatch (path : Path) (command : Command) (args : Args) :
    S (m.dispatch path command args) (n.dispatch path command args) := by
  unfold Machine.dispatch
  rw [alike.length h]
  cases path with
  | attached | detached => exact alike.wake (alike.openCall h _) _
  | queued => exact alike.send (alike.openCall h _) _

theorem arrange (state : State) : S (m.arrange state) (n.arrange state) := by
  unfold Machine.arrange
  rw [alike.length h]
  exact alike.wake (alike.openCall h _) _

theorem release (permits : Nat) : S (m.release permits) (n.release permits) := by
  have more := alike.withPermits h (n.permits + permits)
  unfold Machine.release
  rw [alike.permits h]
  dsimp only
  rw [alike.isBlocked more]
  split
  · exact alike.wake more _
  · exact more

theorem abandon {call : Nat} (same : m.isPending call = n.isPending call) :
    S (m.abandon call) (n.abandon call) := by
  have gone := alike.setProgress h call .abandoned
  unfold Machine.abandon
  rw [same]
  split
  · dsimp only
    rw [alike.gate gone, alike.channel gone]
    split
    · exact alike.passOn gone
    · exact alike.withChannel (alike.withGate gone (n.gate.withdraw call)) (n.channel.withdraw call)
  · exact h

theorem submit {v : Move} (same : ∀ call, v = .abandon call → m.isPending call = n.isPending call) :
    S (m.submit v) (n.submit v) := by
  cases v with
  | dispatch path command args => exact alike.dispatch h path command args
  | arrange state => exact alike.arrange h state
  | release permits => exact alike.release h permits
  | abandon call => exact alike.abandon h (same call rfl)

end Lockstep

end Lifecycle.Machine
