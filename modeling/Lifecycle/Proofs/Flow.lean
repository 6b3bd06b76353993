import Lifecycle.Proofs.Passage
import Lifecycle.Proofs.Unmoved
import Lifecycle.Proofs.Worker

/-! Every act of a machine does to its channel what can become of one: so the order of the line, the
bound of the queue and what the worker takes are as they have to be, whatever callers, handlers and
records do. -/

namespace Lifecycle

def Turn.post? : Turn → Option Post
  | .place p => some p
  | _ => none

theorem Turn.post?_of_ticket? {turn : Turn} (other : turn.ticket? = none) : turn.post? = none := by
  cases turn <;> first | rfl | cases other

theorem Turn.post?_of_canWait {turn : Turn} (waits : turn.canWait) : turn.post? = none := by
  cases turn <;> first | rfl | cases waits

def Hand.given : Hand → List Post
  | .turn next => next.post?.toList
  | _ => []

/-- The calls of requests that were opened and have not come to the channel. -/
def Hand.asking : Hand → Nat
  | .request _ => 1
  | _ => 0

def Note.entered? : Note → Option Nat
  | .queued call => some call
  | _ => none

def Note.taken? : Note → Option Nat
  | .taken call => some call
  | _ => none

theorem Note.foreign_of_isInner {n : Note} (h : n.isInner) :
    n.entered? = none ∧ n.taken? = none := by
  cases n <;> first | exact ⟨rfl, rfl⟩ | cases h

namespace Machine

def passage (m : Machine) : Passage where
  capacity := m.channel.capacity
  calls := m.calls.length
  given := m.turns.filterMap Turn.post?
  waiting := m.channel.waiting
  queue := m.channel.queue
  worker := m.channel.worker
  entered := m.journal.filterMap Note.entered?
  taken := m.journal.filterMap Note.taken?

/-- The way through the channel while something may be in hand. -/
def passageIn (hand : Hand) (m : Machine) : Passage :=
  { m.passage with calls := m.calls.length - hand.asking, given := hand.given ++ m.passage.given }

variable {m m' : Machine} {hand hand' : Hand} {t : Ticket}

theorem passage_openCall (m : Machine) (t : Ticket) :
    (m.openCall t).passage = { m.passage with calls := m.passage.calls + 1 } := by
  simp [passage, openCall, note, turns, List.filterMap_cons, Note.entered?, Note.taken?]

theorem passage_wakeArrive (m : Machine) (t : Ticket) :
    (m.wake (.arrive t)).passage = m.passage := by
  simp [passage, turns, wake, List.filterMap_cons, Turn.post?]

theorem passage_arrive (m : Machine) (t : Ticket) (share : Nat) :
    (m.arrive t share).passage = m.passage := by
  rcases m.arrive_cases t share with ⟨-, same⟩ | ⟨-, share', same⟩ | ⟨-, same⟩ <;> rw [same] <;>
    simp [passage, turns, putOff, List.filterMap_cons, Turn.post?, Note.entered?, Note.taken?]

theorem passage_passOn (inside : m.gate.ticket? = some t) : m.passOn.passage = m.passage := by
  cases line : m.gate.waiting with
  | nil =>
    rw [passOn_of_nil inside line]
    simp [passage, turns, Note.entered?, Note.taken?]
  | cons =>
    rw [passOn_of_cons inside line]
    simp [passage, turns, List.filterMap_cons, Turn.post?, Note.entered?, Note.taken?]

theorem channel_answer (m : Machine) (call : Nat) (a : Answer) :
    (m.answer call a).channel = m.channel := by
  obtain ⟨calls, same, -⟩ := m.answer_eq call a
  rw [same]

theorem Unmoved.passage_eq (h : Unmoved m m') : m'.passage = { m.passage with
    capacity := m'.channel.capacity
    waiting := m'.channel.waiting
    queue := m'.channel.queue
    worker := m'.channel.worker } := by
  have given := h.filterMap_turns fun _ => Turn.post?_of_ticket?
  have entered := h.filterMap_journal fun _ inner => (Note.foreign_of_isInner inner).1
  have taken := h.filterMap_journal fun _ inner => (Note.foreign_of_isInner inner).2
  simp only [passage, h.calls, given, entered, taken]

theorem Unmoved.passage_of_channel (h : Unmoved m m') (channel : m'.channel = m.channel) :
    m'.passage = m.passage := by
  rw [h.passage_eq, channel]
  rfl

theorem length_given (m : Machine) :
    m.passage.given.length = (m.ready ++ m.deferred).countP Turn.isPlace := by
  rw [passage, List.length_filterMap_eq_countP]
  exact List.countP_congr fun turn _ => by cases turn <;> simp [Turn.post?, Turn.isPlace]

theorem Places.passage_eq {p : Post} (places : Places m p m') :
    m.channel.worker = .gone ∧ m'.passage = m.passage ∨
    m.channel.worker ≠ .gone ∧ m'.passage = { m.passage with
      queue := m.passage.queue ++ [p]
      worker := .busy
      entered := m.passage.entered ++ [p.call] } := by
  cases places with
  | refused closed =>
    refine .inl ⟨by simpa [Channel.isClosed] using closed, ?_⟩
    exact (Unmoved.answer ..).passage_of_channel (channel_answer ..)
  | rouses idle =>
    refine .inr ⟨by simp [idle], ?_⟩
    simp [passage, turns, List.filterMap_cons, Turn.post?, Note.entered?, Note.taken?]
  | queues busy =>
    refine .inr ⟨by simp [busy], ?_⟩
    simp [passage, turns, busy, Note.entered?, Note.taken?]

variable {d : Dispatcher} {capacity : Nat}

theorem Midway.asked {p : Post} (h : Midway d capacity (.request p) m) :
    m.calls.length = p.call + 1 := by
  cases h with
  | @act _ _ before _ _ act =>
    cases act with
    | asks opening =>
      have new : p.call = before.calls.length := (ticket?_eq_some opening).1
      rw [new]
      exact List.length_append

theorem Midway.passes_request {p : Post} (before : Midway d capacity (.request p) m)
    (open' : m.channel.isClosed ∨ m.hasRoom) (places : Places m p m') :
    (passageIn (.request p) m).Passes m'.passage := by
  have count : m.calls.length - 1 + 1 = m.calls.length := by rw [before.asked, Nat.add_sub_cancel]
  rcases places.passage_eq with ⟨gone, same⟩ | ⟨alive, same⟩
  · rw [same]
    exact .still (x := passageIn (.request p) m) m.calls.length (Nat.sub_le ..)
  · have room : m.hasRoom := open'.resolve_left fun closed =>
      alive (by simpa [Channel.isClosed] using closed)
    have new : p.call = (passageIn (.request p) m).calls := by
      simp [passageIn, Hand.asking, before.asked]
    have enters := Passage.Passes.enters (x := passageIn (.request p) m) new alive (by
      simp only [passageIn, Hand.given, List.nil_append, length_given]
      exact of_decide_eq_true room)
    rw [same]
    simpa [passageIn, Hand.asking, Hand.given, count, passage] using enters

theorem passes_place {p : Post} (places : Places m p m') :
    (passageIn (.turn (.place p)) m).Passes m'.passage := by
  rcases places.passage_eq with ⟨gone, same⟩ | ⟨alive, same⟩
  · rw [same]
    exact .refuses (x := passageIn (.turn (.place p)) m) rfl gone
  · rw [same]
    exact .places (x := passageIn (.turn (.place p)) m) rfl alive

theorem passes_closes {command : Command} {e : Ending} (closes : Closes t command m e m') :
    m.passage.Passes m'.passage := by
  have unmoved := Unmoved.closes closes
  have still (channel : m'.channel = m.channel) : m.passage.Passes m'.passage :=
    unmoved.passage_of_channel channel ▸ .still m.passage.calls (Nat.le_refl _)
  cases closes with
  | told | panicked | replied => exact still (channel_answer ..)
  | reported | unheard => exact still rfl
  | buried =>
    obtain ⟨calls, same, -⟩ := m.bury_eq t.call
    rw [unmoved.passage_eq, same]
    exact .dies

theorem Midway.passes (before : Midway d capacity hand m) (act : Act m hand hand' m') :
    (passageIn hand m).Passes (passageIn hand' m') := by
  have still {x y : Passage} (same : y = x) : x.Passes y := same ▸ .still x.calls (Nat.le_refl _)
  have unmoved := act.unmoved
  have leaving {t : Ticket} {why : Leave} (left : hand' = .left t why) :
      m'.passage = m.passage := by
    obtain ⟨-, w, stays, channel, inside, rfl⟩ := act.leaving left
    exact (passage_passOn inside).trans (stays.passage_of_channel channel)
  -- No sender with room is put off: whoever is given room comes after all that were before.
  have late : m.deferred.filterMap Turn.post? = [] :=
    List.filterMap_eq_nil_iff.2 fun turn mem => Turn.post?_of_canWait (before.late turn mem)
  cases act with
  | @picks turn ready deferred next =>
    refine still ?_
    simp only [passageIn, passage, next]
    cases turn <;> simp [Hand.given, Hand.asking, turns, Turn.post?, List.filterMap_cons]
  | putsOff again =>
    refine still ?_
    cases again <;> simp [passageIn, passage, turns, putOff, Hand.given, Hand.asking, Turn.post?,
      List.filterMap_cons]
  | enters | waits | comes =>
    refine still ?_
    simp [passageIn, passage, turns, wake, Hand.given, Hand.asking, Turn.post?, Note.entered?,
      Note.taken?, List.filterMap_cons]
  | rests queue =>
    have alive : m.channel.worker ≠ .gone := by simp [Staffed.is_busy before.staffed]
    exact .rests (x := m.passage) queue alive
  | takes queue =>
    have takes := Passage.Passes.takes (x := m.passage) queue
    cases waiting : m.channel.waiting <;>
      simpa [passageIn, passage, turns, waiting, late, Hand.given, Hand.asking, Turn.post?,
        Note.entered?, Note.taken?, List.filterMap_cons] using takes
  | places asks places =>
    rcases asks with rfl | ⟨rfl, open'⟩
    · exact passes_place places
    · exact before.passes_request open' places
  | @lines p alive full =>
    have count : m.calls.length - 1 + 1 = m.calls.length := by
      rw [before.asked, Nat.add_sub_cancel]
    have new : p.call = (passageIn (.request p) m).calls := by
      simp [passageIn, Hand.asking, before.asked]
    have alive : m.channel.worker ≠ .gone := by simpa [Channel.isClosed] using alive
    have full : m.channel.capacity ≤ m.channel.queue.length + m.passage.given.length := by
      simpa [length_given, hasRoom] using full
    have lines := Passage.Passes.lines (x := passageIn (.request p) m) new alive full
    simpa [passageIn, Hand.asking, Hand.given, count, passage, turns] using lines
  | leaves | arranges | handsOn => exact still (leaving rfl)
  | closes closes => exact passes_closes closes
  | @opens v t =>
    have opened : passageIn (.comer t) (m.openCall t) =
      { m.passage with calls := m.passage.calls + 1 } := passage_openCall m t
    rw [opened]
    exact .still (x := m.passage) _ (Nat.le_succ _)
  | @asks v p =>
    refine still ?_
    rw [passageIn, passage_openCall]
    simp [passageIn, openCall, note, Hand.asking, Hand.given]
  | @withdraws call =>
    have withdraws := Passage.Passes.withdraws (x := m.passage) call
    simpa [passageIn, passage, turns, Hand.asking, Hand.given, Channel.withdraw] using withdraws
  | reports | forces => exact still ((unmoved rfl rfl).passage_of_channel (channel_answer ..))
  | runs | blocks | publishes | rouses | givesUp | refusedFrame =>
    exact still ((unmoved rfl rfl).passage_of_channel rfl)
  | _ => exact still rfl

theorem Midway.sound (h : Midway d capacity hand m) : (passageIn hand m).Sound := by
  induction h with
  | start =>
    refine ⟨Nat.zero_le _, nofun, fun _ => rfl, nofun, List.prefix_refl _, .nil, .nil, nofun⟩
  | act before act ih => exact ih.passes (before.passes act)

theorem Midway.passage_later {x : Passage} (before : Midway d capacity hand m) (sound : x.Sound)
    (earlier : x.Later (passageIn hand m)) (acts : Acts hand m m') : x.Later m'.passage := by
  induction acts with
  | last act => exact earlier.passes sound before.sound (before.passes act)
  | more act _ _ ih =>
    exact ih (before.act act) (earlier.passes sound before.sound (before.passes act))

theorem Reachable.sound (h : Reachable d capacity m) : m.passage.Sound := h.midway.sound

theorem Reachable.passage_later (h : Reachable d capacity m) (later : Reaches m m') :
    m.passage.Later m'.passage := by
  induction later with
  | refl => exact .refl _
  | tail reaches change ih =>
    have between : Reachable d capacity _ := h.trans reaches
    exact between.midway.passage_later h.sound ih change.acts

theorem Reachable.capacity_eq (h : Reachable d capacity m) :
    m.channel.capacity = max capacity 1 :=
  (Reachable.passage_later .refl h).capacity

end Machine

end Lifecycle
