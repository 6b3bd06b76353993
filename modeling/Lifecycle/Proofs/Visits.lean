import Lifecycle.Proofs.Abandonment
import Lifecycle.Proofs.Course
import Lifecycle.Proofs.Flow

/-! The visits to the gate. Whoever has set out for it is on the way, waits or is inside until it
leaves. Only callers give up before: tasks and the worker outlive theirs. The worker makes one visit
after another, in the order of what it takes. -/

namespace Lifecycle

def Turn.visitor? : Turn → Option Ticket
  | .arrive t => some t
  | _ => none

def Hand.visitor? : Hand → Option Ticket
  | .turn next => next.visitor?
  | .comer t => some t
  | _ => none

/-- Somebody sets out for the gate or leaves it. A request does so when the worker takes it. -/
def Note.isTravel : Note → Bool
  | .opened t => t.seat != .worker
  | .taken _ | .left _ => true
  | _ => false

theorem Turn.visitor?_of_ticket? {turn : Turn} (other : turn.ticket? = none) :
    turn.visitor? = none := by
  cases turn <;> first | rfl | cases other

theorem Note.isTravel_of_isInner {n : Note} (h : n.isInner) : n.isTravel = false := by
  cases n <;> first | rfl | cases h

theorem nobody_of_quiet {j : List Note} (quiet : ∀ n ∈ j, n.isTravel = false) :
    j.filterMap Note.taken? = [] ∧ j.filterMap Note.left? = [] := by
  constructor <;> refine List.filterMap_eq_nil_iff.2 fun n mem => ?_
  · cases n <;> first | rfl | cases quiet _ mem
  · cases n <;> first | rfl | cases quiet _ mem

namespace Machine

def visitors (m : Machine) : List Ticket :=
  m.turns.filterMap Turn.visitor? ++ (m.gate.ticket?.toList ++ m.gate.waiting)

def atGate (m : Machine) (s : Seat) : List Ticket := m.visitors.filter (·.seat == s)

/-- The calls that left the gate on accounts of one kind. -/
def went (m : Machine) (s : Seat) : List Nat :=
  (m.journal.filterMap Note.left?).filter fun call => (ticketOf m.journal call).any (·.seat == s)

def visitorsIn (hand : Hand) (m : Machine) : List Ticket := hand.visitor?.toList ++ m.visitors

/-- The visit is over: whoever came has left the gate, or gave up. -/
def Over (m : Machine) (t : Ticket) : Prop :=
  .left t.call ∈ m.journal ∨ t.seat = .caller ∧ m.calls[t.call]? = some .abandoned

/-- What an act is for the visits: none begins or ends, or one begins, or that of the holder of the
gate ends, or callers give theirs up. -/
inductive Visits (m m' : Machine) (before after : List Ticket) : Prop
  | stays {news} (journal : m'.journal = m.journal ++ news)
    (quiet : ∀ n ∈ news, n.isTravel = false) (same : ∀ p, after.countP p = before.countP p)
  | comes {t n} (journal : m'.journal = m.journal ++ [n])
    (starts : n = .opened t ∧ t.seat ≠ .worker ∨ n = .taken t.call ∧ t.seat = .worker)
    (more : ∀ p, after.countP p = (t :: before).countP p)
  | leaves {t news since} (inside : m.gate.ticket? = some t)
    (journal : m'.journal = m.journal ++ (news ++ .left t.call :: since))
    (quiet : ∀ n ∈ news ++ since, n.isTravel = false)
    (fewer : ∀ p, before.countP p = (t :: after).countP p)
  | giveUp (journal : m'.journal = m.journal)
    (others : after.filter (·.seat == .worker) = before.filter (·.seat == .worker))
    (gave : ∀ t ∈ before, t ∈ after ∨ t.seat = .caller ∧ m'.calls[t.call]? = some .abandoned)

variable {m m' : Machine} {hand hand' : Hand} {t : Ticket} {s : Seat}

theorem mem_visitors : t ∈ m.visitors ↔
    .arrive t ∈ m.turns ∨ m.gate.ticket? = some t ∨ t ∈ m.gate.waiting := by
  have comes : t ∈ m.turns.filterMap Turn.visitor? ↔ .arrive t ∈ m.turns := by
    rw [List.mem_filterMap]
    constructor
    · rintro ⟨turn, mem, visits⟩
      cases turn <;> cases visits
      exact mem
    · exact fun mem => ⟨_, mem, rfl⟩
  simp [visitors, comes]

theorem visitorsIn_eq (nobody : hand.visitor? = none) : visitorsIn hand m = m.visitors := by
  rw [visitorsIn, nobody]
  rfl

theorem Unmoved.visitors_eq (h : Unmoved m m') : m'.visitors = m.visitors := by
  have coming := h.filterMap_turns fun _ => Turn.visitor?_of_ticket?
  rw [visitors, visitors, coming, h.inside, h.waiting]

theorem Unmoved.visits (h : Unmoved m m') (nobody : hand.visitor? = none)
    (nobody' : hand'.visitor? = none) : Visits m m' (visitorsIn hand m) (visitorsIn hand' m') := by
  obtain ⟨news, journal, inner⟩ := h.journal
  refine .stays journal (fun n mem => Note.isTravel_of_isInner (inner n mem)) fun p => ?_
  rw [visitorsIn_eq nobody, visitorsIn_eq nobody', h.visitors_eq]

theorem visitors_passOn (inside : m.gate.ticket? = some t) : ∃ since,
    m.passOn.journal = m.journal ++ .left t.call :: since ∧ (∀ n ∈ since, n.isTravel = false) ∧
      ∀ p, m.visitors.countP p = (t :: m.passOn.visitors).countP p := by
  cases line : m.gate.waiting with
  | nil =>
    rw [passOn_of_nil inside line]
    refine ⟨[], rfl, by simp, fun p => ?_⟩
    simp [visitors, turns, inside, line, List.countP_cons]
    omega
  | cons u us =>
    rw [passOn_of_cons inside line]
    refine ⟨[.admitted u.call], rfl, by simp [Note.isTravel], fun p => ?_⟩
    simp [visitors, turns, inside, line, Turn.visitor?, List.filterMap_cons, List.countP_cons]
    omega

theorem Act.visits (act : Act m hand hand' m') :
    Visits m m' (visitorsIn hand m) (visitorsIn hand' m') := by
  have unmoved (inner : hand.isInner) (done : hand' = .empty) (nobody : hand.visitor? = none) :
      Visits m m' (visitorsIn hand m) (visitorsIn hand' m') :=
    (act.unmoved inner done).visits nobody (done ▸ rfl)
  have leaving {t : Ticket} {why : Leave} (left : hand' = .left t why)
      (nobody : hand.visitor? = none) : Visits m m' (visitorsIn hand m) (visitorsIn hand' m') := by
    obtain ⟨inside, w, stays, -, still, rfl⟩ := act.leaving left
    obtain ⟨news, journal, inner⟩ := stays.journal
    obtain ⟨since, passes, quiet, fewer⟩ := visitors_passOn still
    have path : w.passOn.journal = m.journal ++ (news ++ .left t.call :: since) := by
      rw [passes, journal, List.append_assoc]
    refine .leaves inside path ?_ fun p => ?_
    · refine List.forall_mem_append.2 ⟨fun n mem => ?_, quiet⟩
      exact Note.isTravel_of_isInner (inner n mem)
    · rw [left, visitorsIn, visitorsIn, nobody, ← stays.visitors_eq]
      exact fewer p
  cases act with
  | @picks turn ready deferred next =>
    refine .stays (List.append_nil _).symm (by simp) fun p => ?_
    rw [visitorsIn, visitorsIn, visitors, visitors, next]
    cases visits : turn.visitor? <;> simp [Hand.visitor?, visits, turns]
  | putsOff again =>
    refine .stays (List.append_nil _).symm (by simp) fun p => ?_
    cases again <;>
      simp [visitorsIn, visitors, turns, putOff, Hand.visitor?, Turn.visitor?, List.filterMap_cons,
        List.countP_cons]
    omega
  | enters share free =>
    refine .stays rfl (by simp [Note.isTravel]) fun p => ?_
    simp [visitorsIn, visitors, turns, Hand.visitor?, Turn.visitor?, Gate.ticket?, free,
      List.filterMap_cons, List.countP_cons]
    omega
  | waits held =>
    refine .stays (List.append_nil _).symm (by simp) fun p => ?_
    simp [visitorsIn, visitors, turns, Hand.visitor?, Turn.visitor?, Gate.ticket?, held,
      List.countP_cons]
    omega
  | @takes _ p ps queue =>
    refine .comes (t := p.ticket) rfl (.inr ⟨rfl, rfl⟩) fun q => ?_
    cases m.channel.waiting <;>
      simp [visitorsIn, visitors, turns, Hand.visitor?, Turn.visitor?, List.filterMap_cons]
  | places asks places =>
    have nobody : hand.visitor? = none := by rcases asks with rfl | ⟨rfl, -⟩ <;> rfl
    cases places with
    | refused => exact (Unmoved.answer ..).visits nobody rfl
    | rouses =>
      rw [visitorsIn_eq nobody]
      refine .stays rfl (by simp [Note.isTravel]) fun p => ?_
      simp [visitorsIn, visitors, turns, Hand.visitor?, Turn.visitor?, List.filterMap_cons]
    | queues =>
      rw [visitorsIn_eq nobody]
      exact .stays rfl (by simp [Note.isTravel]) fun p => rfl
  | lines => exact .stays (List.append_nil _).symm (by simp) fun p => rfl
  | opens opening own =>
    refine .comes rfl (.inl ⟨rfl, own⟩) fun p => ?_
    simp [visitorsIn, visitors, turns, openCall, note, Hand.visitor?]
  | asks => exact .stays rfl (by simp [Note.isTravel, Post.ticket]) fun p => rfl
  | comes =>
    refine .stays (List.append_nil _).symm (by simp) fun p => ?_
    simp [visitorsIn, visitors, turns, wake, Hand.visitor?, Turn.visitor?, List.countP_cons]
    omega
  | @withdraws call suspended waits outside =>
    have inRange := (List.getElem?_eq_some_iff.1 (isPending_iff.1 waits)).1
    refine .giveUp rfl ?_ fun t mem => ?_
    · -- Only callers' own tickets are withdrawn.
      have kept : (m.gate.withdraw call).waiting.filter (·.seat == .worker) =
          m.gate.waiting.filter (·.seat == .worker) := by
        rw [Gate.withdraw, List.filter_filter]
        refine List.filter_congr fun t _ => ?_
        cases t.seat <;> simp
      simp only [visitorsIn, visitors, List.filter_append, kept]
      rfl
    · by_cases mine : t.call = call ∧ t.seat = .caller
      · obtain ⟨rfl, own⟩ := mine
        exact .inr ⟨own, List.getElem?_set_self inRange⟩
      · refine .inl (mem_visitors.2 ?_)
        refine (mem_visitors.1 mem).imp_right (.imp_right fun waits => ?_)
        exact Gate.mem_waiting_withdraw.2 ⟨waits, fun same own => mine ⟨same, own⟩⟩
  | leaves | arranges | handsOn => exact leaving rfl rfl
  | steps | makes | settled => exact .stays (List.append_nil _).symm (by simp) fun p => rfl
  | _ => exact unmoved rfl rfl rfl

theorem Visits.remains {before after : List Ticket} (v : Visits m m' before after)
    (here : t ∈ before) : t ∈ after ∨ m'.Over t := by
  cases v with
  | stays _ _ same => exact .inl (mem_of_countP (fun p => Nat.le_of_eq (same p).symm) t here)
  | comes _ _ more =>
    refine .inl (mem_of_countP (fun p => Nat.le_of_eq (more p).symm) t ?_)
    exact List.mem_cons_of_mem _ here
  | leaves _ journal _ fewer =>
    have here := mem_of_countP (fun p => Nat.le_of_eq (fewer p)) t here
    refine (List.mem_cons.1 here).symm.imp_right ?_
    rintro rfl
    exact .inl (by simp [journal])
  | giveUp _ _ gave => exact (gave t here).imp_right .inr

theorem Later.stays_over {adds : Note → Prop} {ends : Progress → Prop} (later : Later adds ends m m')
    (ended : m.Over t) : m'.Over t := by
  obtain ⟨news, same, -⟩ := later.journal
  refine ended.imp (fun gone => ?_) fun ⟨own, gave⟩ => ⟨own, later.settled gave (by simp)⟩
  rw [same]
  exact List.mem_append_left _ gone

theorem Acts.visitor_stays (acts : Acts hand m m') (here : t ∈ visitorsIn hand m) :
    t ∈ m'.visitors ∨ m'.Over t := by
  induction acts with
  | last act => exact act.visits.remains here
  | more act busy rest ih =>
    rcases act.visits.remains here with here | ended
    · exact ih here
    · exact .inr ((rest.grows (fun _ _ => trivial) (.inl trivial)).stays_over ended)

variable {d : Dispatcher} {capacity : Nat}

theorem mem_tickets_of_visitor (mem : t ∈ m.visitors) : t ∈ m.tickets := by
  simp only [visitors, tickets, entrants, List.mem_append, List.mem_filterMap] at mem ⊢
  rcases mem with ⟨turn, mem, visits⟩ | mem | mem
  · refine .inr (.inl (.inl ⟨turn, mem, ?_⟩))
    cases turn <;> cases visits
    rfl
  · exact .inl mem
  · exact .inr (.inl (.inr mem))

theorem Tracked.eq_of_call {out all : List Ticket} (h : Tracked out all m) {u : Ticket}
    (known : ticketOf m.journal t.call = some t) (mem : u ∈ all) (same : u.call = t.call) :
    u = t := by
  have known' := h.known u mem
  rw [same, known] at known'
  exact (Option.some.inj known').symm

theorem eq_of_countP {α : Type} {xs ys : List α} (same : ∀ p : α → Bool, xs.countP p = ys.countP p)
    (few : xs.length ≤ 1) : xs = ys := by
  have length : xs.length = ys.length := by simpa using same fun _ => true
  match xs, ys with
  | [], ys => exact (List.length_eq_zero_iff.1 length.symm).symm
  | [x], [y] =>
    have mem := mem_of_countP (fun p => Nat.le_of_eq (same p)) x (List.mem_singleton_self x)
    rw [List.mem_singleton.1 mem]
  | [_], [] | [_], _ :: _ :: _ | _ :: _ :: _, _ => simp at length few

theorem filter_eq_of_countP {α : Type} {xs ys : List α} {q : α → Bool}
    (same : ∀ p : α → Bool, xs.countP p = ys.countP p) (few : (xs.filter q).length ≤ 1) :
    xs.filter q = ys.filter q := by
  refine eq_of_countP (fun p => ?_) few
  rw [List.countP_filter, List.countP_filter, same]

/-- A task or a caller that has set out is at the gate or on its way there until its visit is
over. -/
theorem Midway.at_gate (h : Midway d capacity hand m) (own : t.seat ≠ .worker)
    (opened : .opened t ∈ m.journal) : t ∈ visitorsIn hand m ∨ m.Over t := by
  induction h with
  | start => cases opened
  | act before act ih =>
    have later : Later _ (fun _ => True) _ _ := .act (fun _ _ => trivial) (fun _ => trivial) act
    have earlier (old) := (ih old).elim act.visits.remains fun ended => .inr (later.stays_over ended)
    have travels : (Note.opened t).isTravel := by simp [Note.isTravel, own]
    cases act.visits with
    | stays journal quiet =>
      rw [journal] at opened
      refine earlier ((List.mem_append.1 opened).resolve_right fun new => ?_)
      exact absurd travels (by simp [quiet _ new])
    | comes journal starts more =>
      rw [journal] at opened
      rcases List.mem_append.1 opened with old | new
      · exact earlier old
      · rcases starts with ⟨rfl, -⟩ | ⟨rfl, -⟩ <;> cases List.mem_singleton.1 new
        exact .inl (mem_of_countP (fun p => Nat.le_of_eq (more p).symm) t List.mem_cons_self)
    | @leaves u news since inside journal quiet =>
      rw [journal] at opened
      refine earlier ((List.mem_append.1 opened).resolve_right fun new => ?_)
      have new : Note.opened t ∈ news ++ since := by simpa using new
      exact absurd travels (by simp [quiet _ new])
    | giveUp journal => exact earlier (journal ▸ opened)

section midway

variable (h : Midway d capacity hand m)
include h

theorem Midway.length_at_gate : ((visitorsIn hand m).filter (·.seat == .worker)).length ≤ 1 := by
  have one : m.errands + hand.errand ≤ 1 := by
    have busy := h.staffed.busy
    split at busy <;> omega
  have given : hand.visitor?.toList.countP (·.seat == .worker) ≤ hand.errand := by
    cases hand with
    | turn next => cases next <;> simp [Hand.visitor?, Turn.visitor?, Hand.errand, Turn.isErrand]
    | comer t => simp [Hand.visitor?, Hand.errand, Ticket.errand]
    | _ => exact Nat.zero_le _
  have coming : (m.turns.filterMap Turn.visitor?).countP (·.seat == .worker) ≤
      m.turns.countP Turn.isErrand := by
    rw [List.countP_filterMap]
    refine List.countP_mono_left fun turn _ visits => ?_
    cases turn <;> simp_all [Turn.visitor?, Turn.isErrand]
  rw [errands] at one
  rw [← List.countP_eq_length_filter, visitorsIn, visitors, List.countP_append, List.countP_append]
  omega

theorem Midway.went_append {news : List Note} (journal : m'.journal = m.journal ++ news)
    (s : Seat) : m'.went s = m.went s ++ (news.filterMap Note.left?).filter fun call =>
      (ticketOf m'.journal call).any (·.seat == s) := by
  rw [went, went, journal, List.filterMap_append, List.filter_append]
  refine congrArg (· ++ _) (List.filter_congr fun call mem => ?_)
  obtain ⟨n, mem, left⟩ := List.mem_filterMap.1 mem
  cases n <;> cases left
  obtain ⟨t, known, -⟩ := h.accounted.lawful.left mem
  rw [known, ticketOf_of_append _ known]

end midway

/-- The worker brings to the gate what it takes, one request after another. -/
theorem Midway.taken_eq (h : Midway d capacity hand m) : m.journal.filterMap Note.taken? =
    m.went .worker ++ ((visitorsIn hand m).filter (·.seat == .worker)).map Ticket.call := by
  -- The worker has one visit at most before and after an act, so that counts settle the order too.
  induction h with
  | start => rfl
  | act before act ih =>
    have few := before.length_at_gate
    have few' := (before.act act).length_at_gate
    cases act.visits with
    | stays journal quiet same =>
      obtain ⟨taken, left⟩ := nobody_of_quiet quiet
      rw [before.went_append journal, filter_eq_of_countP same few', journal, List.filterMap_append,
        taken, left, ih]
      simp
    | @comes t n journal starts more =>
      have now := filter_eq_of_countP more few'
      rcases starts with ⟨rfl, own⟩ | ⟨rfl, own⟩
      · rw [List.filter_cons_of_neg (by simp [own])] at now
        rw [before.went_append journal, now, journal, List.filterMap_append, ih]
        simp [Note.taken?, Note.left?, List.filterMap_cons]
      · rw [List.filter_cons_of_pos (by simp [own])] at now
        rw [now, List.length_cons] at few'
        have first := List.length_eq_zero_iff.1 (Nat.le_zero.1 (Nat.le_of_succ_le_succ few'))
        rw [first, List.map_nil, List.append_nil] at ih
        rw [before.went_append journal, now, first, journal, List.filterMap_append, ih]
        simp [Note.taken?, Note.left?, List.filterMap_cons]
    | @leaves t news since inside journal quiet fewer =>
      obtain ⟨nobody, silent⟩ := nobody_of_quiet quiet
      rw [List.filterMap_append] at nobody silent
      have taken : (news ++ .left t.call :: since).filterMap Note.taken? = [] := by
        rwa [List.filterMap_append, List.filterMap_cons_none rfl]
      have left : (news ++ .left t.call :: since).filterMap Note.left? = [t.call] := by
        obtain ⟨silent, silent'⟩ := List.append_eq_nil_iff.1 silent
        rw [List.filterMap_append, List.filterMap_cons, silent, silent']
        rfl
      have known := before.tracked.known t (List.mem_append_right _ (by simp [tickets, inside]))
      have now := filter_eq_of_countP fewer few
      rw [before.went_append journal, left, journal, List.filterMap_append, taken, ih]
      by_cases own : t.seat = .worker
      · rw [List.filter_cons_of_pos (by simp [own])] at now
        rw [now, List.length_cons] at few
        have last := List.length_eq_zero_iff.1 (Nat.le_zero.1 (Nat.le_of_succ_le_succ few))
        rw [now, last]
        simp [ticketOf_of_append _ known, own]
      · rw [List.filter_cons_of_neg (by simp [own])] at now
        rw [now]
        simp [ticketOf_of_append _ known, own]
    | giveUp journal others =>
      have nothing := journal.trans (List.append_nil _).symm
      rw [before.went_append nothing, others, journal, ih]
      simp

theorem Reachable.taken_eq (h : Reachable d capacity m) :
    m.journal.filterMap Note.taken? = m.went .worker ++ (m.atGate .worker).map Ticket.call :=
  h.midway.taken_eq

theorem Reachable.length_atGate (h : Reachable d capacity m) : (m.atGate .worker).length ≤ 1 :=
  h.midway.length_at_gate

theorem mem_went {call : Nat} : call ∈ m.went s ↔ .left call ∈ m.journal ∧
    ∃ t, ticketOf m.journal call = some t ∧ t.seat = s := by
  have left : call ∈ m.journal.filterMap Note.left? ↔ .left call ∈ m.journal := by
    rw [List.mem_filterMap]
    constructor
    · rintro ⟨n, mem, left⟩
      cases n <;> cases left
      exact mem
    · exact fun mem => ⟨_, mem, rfl⟩
  rw [went, List.mem_filter, left, Option.any_eq_true]
  simp

theorem Reachable.task_at_gate (h : Reachable d capacity m)
    (known : ticketOf m.journal t.call = some t) (own : t.seat = .task) :
    t ∈ m.atGate .task ∨ .left t.call ∈ m.journal := by
  rcases h.midway.at_gate (by simp [own]) (mem_of_ticketOf known) with here | gone | ⟨caller, -⟩
  · exact .inl (List.mem_filter.2 ⟨here, by simp [own]⟩)
  · exact .inr gone
  · cases own.symm.trans caller

section detached

variable (h : Reachable d capacity m) (known : ticketOf m.journal t.call = some t)
include h known

theorem Reachable.taken_of_admitted (own : t.seat = .worker)
    (mem : .admitted t.call ∈ m.journal) : t.call ∈ m.journal.filterMap Note.taken? := by
  rw [h.taken_eq, List.mem_append]
  rcases h.lawful.inside_or_left mem with ⟨u, inside, same⟩ | gone
  · rw [m.gate.phase_ticket?] at inside
    have ticket : u ∈ m.tickets := by simp [tickets, inside]
    cases h.orderly.eq_of_call known ticket same
    refine .inr (List.mem_map_of_mem (List.mem_filter.2 ⟨?_, by simp [own]⟩))
    simp [visitors, inside]
  · exact .inl (mem_went.2 ⟨gone, t, known, own⟩)

/-- What a task or the worker has taken up is decided in the end, and until then it is at the gate
or on its way there. -/
theorem Reachable.carried (detached : t.seat ≠ .caller)
    (out : t.seat = .worker → t.call ∈ m.journal.filterMap Note.taken?) : t ∈ m.atGate t.seat ∨
      ∃ outcome result status, .committed t.call outcome result status ∈ m.journal := by
  have visit : t ∈ m.atGate t.seat ∨ .left t.call ∈ m.journal := by
    cases own : t.seat with
    | caller => exact absurd own detached
    | task => exact h.task_at_gate known own
    | worker =>
      have taken := out own
      rw [h.taken_eq, List.mem_append, List.mem_map] at taken
      rcases taken with gone | ⟨u, here, same⟩
      · exact .inr (mem_went.1 gone).1
      · have ticket := mem_tickets_of_visitor (List.mem_of_mem_filter here)
        exact .inl (h.orderly.eq_of_call known ticket same ▸ here)
  refine visit.imp_right fun gone => ?_
  obtain ⟨u, known', published⟩ := h.lawful.left gone
  cases known.symm.trans known'
  obtain ⟨n, mem, answer, due⟩ := published detached
  cases n with
  | committed => cases due; exact ⟨_, _, _, mem⟩
  | arranged =>
    cases due
    obtain ⟨u, state, known', work⟩ := h.lawful.arranged_ticket mem
    cases known.symm.trans known'
    exact absurd (h.orderly.owned t (mem_of_ticketOf known) state work) detached
  | _ => cases due

end detached

end Machine

end Lifecycle
