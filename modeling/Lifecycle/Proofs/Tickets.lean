import Lifecycle.Proofs.Acts

/-! Where the tickets are. Every call has one ticket, which is on its way to the gate or inside, in
one place only. As long as its caller waits the ticket is there, or the report of a breakdown is. -/

namespace Lifecycle

def Turn.ticket? : Turn → Option Ticket
  | .arrive t => some t
  | .place p => some p.ticket
  | _ => none

@[simp] theorem Turn.ticket?_arrive (t : Ticket) : (arrive t).ticket? = some t := rfl

@[simp] theorem Turn.ticket?_place (p : Post) : (place p).ticket? = some p.ticket := rfl

@[simp] theorem Turn.ticket?_proceed (share : Nat) : (proceed share).ticket? = none := rfl

@[simp] theorem Turn.ticket?_collect (share : Nat) : (collect share).ticket? = none := rfl

def Hand.ticket? : Hand → Option Ticket
  | .turn next => next.ticket?
  | .comer t => some t
  | .request p => some p.ticket
  | .left t _ => some t
  | _ => none

def Hand.comer? : Hand → Option Ticket
  | .left .. => none
  | hand => hand.ticket?

namespace Machine

def entrants (m : Machine) : List Ticket :=
  m.turns.filterMap Turn.ticket? ++ m.gate.waiting ++
    (m.channel.queue ++ m.channel.waiting).map Post.ticket

def tickets (m : Machine) : List Ticket := m.gate.ticket?.toList ++ m.entrants

section

variable {m : Machine} {turn : Turn} (empty : turn.ticket? = none)
include empty

theorem entrants_wake : (m.wake turn).entrants = m.entrants := by
  simp [entrants, turns, wake, empty]

theorem entrants_resume : (m.resume turn).entrants = m.entrants := by
  simp [entrants, turns, resume, empty]

theorem entrants_putOff : (m.putOff turn).entrants = m.entrants := by
  simp [entrants, turns, putOff, empty]

theorem tickets_wake : (m.wake turn).tickets = m.tickets := by
  rw [tickets, entrants_wake empty]
  rfl

theorem tickets_resume : (m.resume turn).tickets = m.tickets := by
  rw [tickets, entrants_resume empty]
  rfl

theorem tickets_putOff : (m.putOff turn).tickets = m.tickets := by
  rw [tickets, entrants_putOff empty]
  rfl

end

def hasReport (m : Machine) (call : Nat) : Prop :=
  ∃ command payload, .report call command payload ∈ m.turns

theorem Suspended.other {m : Machine} {call : Nat} {t : Ticket} (suspended : m.Suspended call)
    (carried : t ∈ m.turns.filterMap Turn.ticket?) (same : t.call = call) : t.seat ≠ .caller := by
  intro own
  obtain ⟨turn, mem, carries⟩ := List.mem_filterMap.1 carried
  have others := suspended turn mem
  cases turn <;> cases carries
  · simp [owns, same, own] at others
  · cases own

/-- What is true of the tickets `all` of a machine, of which those in `out` are not inside yet. In
the midst of a turn one of them may be in nobody's hand but that turn's. -/
structure Tracked (out all : List Ticket) (m : Machine) : Prop where
  once : ∀ call, all.countP (·.call == call) ≤ 1
  known : ∀ t ∈ all, ticketOf m.journal t.call = some t
  fresh : ∀ t ∈ out, .admitted t.call ∉ m.journal
  unanswered : ∀ t ∈ all, m.isPending t.call ∨
    t.seat ≠ .caller ∧ m.calls[t.call]? = some .abandoned
  waits : ∀ t, .opened t ∈ m.journal → m.isPending t.call → t ∈ all ∨ m.hasReport t.call
  numbered : ∀ t, .opened t ∈ m.journal → t.call < m.calls.length
  came : ∀ call, .admitted call ∈ m.journal → call < m.calls.length
  opened : ∀ call < m.calls.length, ∃ t, .opened t ∈ m.journal ∧ t.call = call
  reported : ∀ call, m.hasReport call → (∃ t, ticketOf m.journal call = some t ∧ t.seat = .task) ∧
    ∀ t ∈ all, t.call ≠ call
  owned : ∀ t, .opened t ∈ m.journal → ∀ state, t.work = .arrange state → t.seat = .caller

/-- The tickets of a machine between two turns. -/
abbrev Orderly (m : Machine) : Prop := Tracked m.entrants m.tickets m

theorem mem_of_countP {α : Type} {xs ys : List α}
    (less : ∀ p : α → Bool, xs.countP p ≤ ys.countP p) : ∀ x ∈ xs, x ∈ ys := by
  classical
  intro x mem
  have one : 0 < xs.countP (· = x) := List.countP_pos_iff.2 ⟨x, mem, by simp⟩
  obtain ⟨y, mem, same⟩ := List.countP_pos_iff.1 (Nat.lt_of_lt_of_le one (less _))
  have same : y = x := by simpa using same
  exact same ▸ mem

variable {out out' all all' : List Ticket} {m m' : Machine} {t : Ticket}

namespace Tracked

theorem ne_of_append {ts us : List Ticket} (h : Tracked out (ts ++ us) m) {u : Ticket}
    (ht : t ∈ ts) (hu : u ∈ us) : u.call ≠ t.call := by
  intro same
  have one := h.once t.call
  have left : 0 < ts.countP (·.call == t.call) := List.countP_pos_iff.2 ⟨t, ht, by simp⟩
  have right : 0 < us.countP (·.call == t.call) := List.countP_pos_iff.2 ⟨u, hu, by simp [same]⟩
  rw [List.countP_append] at one
  omega

theorem ne_of_cons (h : Tracked out (t :: all) m) {u : Ticket} (mem : u ∈ all) :
    u.call ≠ t.call :=
  ne_of_append (show Tracked out ([t] ++ all) m from h) (List.mem_singleton_self t) mem

theorem inRange (h : Tracked out all m) (mem : t ∈ all) : t.call < m.calls.length :=
  h.numbered t (mem_of_ticketOf (h.known t mem))

/-- A change that makes no tickets and tells only callers whose tickets are gone, or who gave up
what goes on without them. -/
theorem change (h : Tracked out all m) (outside : ∀ p, out'.countP p ≤ out.countP p)
    (total : ∀ p, all'.countP p ≤ all.countP p)
    {news : List Note} (journal : m'.journal = m.journal ++ news) (opened : ∀ t, .opened t ∉ news)
    (admitted : ∀ call, .admitted call ∈ news →
      ∃ t, t.call = call ∧ ∀ p, (t :: out').countP p ≤ all.countP p)
    (length : m'.calls.length = m.calls.length)
    (calls : ∀ call, m'.calls[call]? = m.calls[call]? ∨ ¬ m'.isPending call ∧ ∀ t ∈ all',
      t.call = call → t.seat ≠ .caller ∧ m'.calls[call]? = some .abandoned)
    (gone : ∀ t ∈ all, m'.isPending t.call → t ∈ all' ∨ m'.hasReport t.call)
    (kept : ∀ call, m.hasReport call → m'.isPending call → m'.hasReport call)
    (reports : ∀ call, m'.hasReport call →
      m.hasReport call ∨ ∃ t ∈ all, t.call = call ∧ t.seat = .task ∧ ∀ u ∈ all', u.call ≠ call) :
    Tracked out' all' m' where
  once call := Nat.le_trans (total _) (h.once call)
  known t mem := by
    rw [journal]
    exact ticketOf_of_append _ (h.known t (mem_of_countP total t mem))
  fresh t mem seen := by
    rw [journal, List.mem_append] at seen
    rcases seen with seen | seen
    · exact h.fresh t (mem_of_countP outside t mem) seen
    · obtain ⟨u, same, less⟩ := admitted t.call seen
      have one := Nat.le_trans (less _) (h.once t.call)
      have more : 0 < out'.countP (·.call == t.call) := List.countP_pos_iff.2 ⟨t, mem, by simp⟩
      rw [List.countP_cons_of_pos (by simp [same])] at one
      omega
  unanswered t mem := by
    rcases calls t.call with same | ⟨-, left⟩
    · have before := h.unanswered t (mem_of_countP total t mem)
      rwa [isPending_iff, ← same, ← isPending_iff] at before
    · exact .inr (left t mem rfl)
  waits t mem pending := by
    rw [journal, List.mem_append] at mem
    have same := (calls t.call).resolve_right fun left => left.1 pending
    have before : m.isPending t.call := by rwa [isPending_iff, ← same, ← isPending_iff]
    rcases h.waits t (mem.resolve_right (opened t)) before with mem | report
    · exact gone t mem pending
    · exact .inr (kept _ report pending)
  numbered t mem := by
    rw [journal, List.mem_append] at mem
    rw [length]
    exact h.numbered t (mem.resolve_right (opened t))
  came call mem := by
    rw [journal, List.mem_append] at mem
    rw [length]
    rcases mem with mem | mem
    · exact h.came call mem
    · obtain ⟨t, rfl, less⟩ := admitted call mem
      exact h.inRange (mem_of_countP less t List.mem_cons_self)
  opened call less := by
    rw [length] at less
    obtain ⟨t, mem, same⟩ := h.opened call less
    exact ⟨t, by simp [journal, mem], same⟩
  reported call report := by
    rw [journal]
    rcases reports call report with report | ⟨t, mem, rfl, seat, others⟩
    · obtain ⟨⟨t, known, seat⟩, others⟩ := h.reported call report
      refine ⟨⟨t, ticketOf_of_append _ known, seat⟩, fun u mem => ?_⟩
      exact others u (mem_of_countP total u mem)
    · exact ⟨⟨t, ticketOf_of_append _ (h.known t mem), seat⟩, others⟩
  owned t mem := by
    rw [journal, List.mem_append] at mem
    exact h.owned t (mem.resolve_right (opened t))

/-- A change that tells nobody and leaves all tickets where they are, or only lets some of them
in. -/
theorem quietly (h : Tracked out all m) (outside : ∀ p, out'.countP p ≤ out.countP p)
    (total : ∀ p, all'.countP p = all.countP p)
    {news : List Note} (journal : m'.journal = m.journal ++ news) (opened : ∀ t, .opened t ∉ news)
    (admitted : ∀ call, .admitted call ∈ news →
      ∃ t, t.call = call ∧ ∀ p, (t :: out').countP p ≤ all.countP p)
    (calls : m'.calls = m.calls) (reports : ∀ call, m'.hasReport call ↔ m.hasReport call) :
    Tracked out' all' m' := by
  refine h.change outside (fun p => Nat.le_of_eq (total p)) journal opened admitted (by rw [calls])
    (fun call => .inl (by rw [calls])) (fun t mem _ => .inl ?_) (fun call report _ => ?_)
    (fun call report => .inl ((reports call).1 report))
  · exact mem_of_countP (fun p => Nat.le_of_eq (total p).symm) t mem
  · exact (reports call).2 report

theorem tell (h : Tracked out all m) {tells : Nat → Answer → Prop}
    (told : Told tells m.calls m'.calls)
    (outside : ∀ p, out'.countP p ≤ out.countP p) (total : ∀ p, all'.countP p ≤ all.countP p)
    (silent : ∀ call a, tells call a → ∀ t ∈ all', t.call ≠ call)
    (gone : ∀ t ∈ all, t ∈ all' ∨ m'.calls[t.call]? ≠ some .pending)
    {news : List Note} (journal : m'.journal = m.journal ++ news) (opened : ∀ t, .opened t ∉ news)
    (admitted : ∀ call, .admitted call ∉ news)
    (reports : ∀ call, m'.hasReport call ↔ m.hasReport call) : Tracked out' all' m' := by
  refine h.change outside total journal opened (fun call mem => absurd mem (admitted call))
    told.length (fun call => ?_) (fun t mem pending => .inl ?_)
    (fun call report _ => (reports call).2 report)
    (fun call report => .inl ((reports call).1 report))
  · refine (told.each call).imp_right fun ⟨_, a, said, answered⟩ => ⟨?_, fun t mem same => ?_⟩
    · simp [isPending_iff, answered]
    · exact absurd same (silent call a said t mem)
  · exact (gone t mem).resolve_right fun settled => settled (isPending_iff.1 pending)

theorem passOn (h : m.Orderly) (inside : m.gate.ticket? = some t) :
    Tracked m.passOn.entrants (t :: m.passOn.tickets) m.passOn := by
  cases line : m.gate.waiting with
  | nil =>
    rw [passOn_of_nil inside line]
    refine h.quietly (fun p => ?_) (fun p => ?_) rfl ?_ ?_ rfl (fun _ => .rfl)
    · simp [entrants, turns, line]
    · simp [tickets, entrants, turns, line, inside]
    · simp
    · simp
  | cons u us =>
    rw [passOn_of_cons inside line]
    refine h.quietly (fun p => ?_) (fun p => ?_) rfl ?_ ?_ rfl (fun _ => ?_)
    · simp [entrants, turns, line, List.countP_cons, List.filterMap_cons]
    · simp [tickets, entrants, turns, line, inside, List.countP_cons, List.filterMap_cons]
      omega
    · simp
    · simp only [List.mem_cons, List.not_mem_nil, reduceCtorEq, Note.admitted.injEq, false_or,
        or_false]
      rintro _ rfl
      refine ⟨u, rfl, fun p => ?_⟩
      simp [tickets, entrants, turns, line, inside, List.countP_cons, List.filterMap_cons]
      omega
    · simp [hasReport, turns]

theorem answered (h : Tracked out (t :: m.tickets) m)
    (outside : ∀ p, m.entrants.countP p ≤ out.countP p) (a : Answer) :
    (m.answer t.call a).Orderly := by
  obtain ⟨calls, same, settled, told⟩ := m.answer_eq t.call a
  rw [same]
  refine h.tell told outside (fun p => ?_) ?_ ?_ (List.append_nil _).symm
    (by simp) (by simp) fun _ => .rfl
  · exact (List.sublist_cons_self t m.tickets).countP_le
  · exact fun call a said u mem => said.1 ▸ h.ne_of_cons mem
  · intro u mem
    rcases List.mem_cons.1 mem with rfl | mem
    · exact .inr settled
    · exact .inl mem

theorem tickets_bury (calls : List Progress) : m.tickets = tickets { m with
    calls, channel := { m.channel with queue := [], waiting := [], worker := .gone } } ++
      (m.channel.queue ++ m.channel.waiting).map Post.ticket := by
  simp [tickets, entrants, turns]

/-- A ticket in nobody's hand is done with when the account on which it was used is closed. -/
theorem closes (h : Tracked m.entrants (t :: m.tickets) m) {command : Command} {e : Ending}
    (closes : Closes t command m e m') : m'.Orderly := by
  have others : ∀ u ∈ m.tickets, u.call ≠ t.call := fun u mem => h.ne_of_cons mem
  have fewer (p : Ticket → Bool) : m.tickets.countP p ≤ (t :: m.tickets).countP p :=
    (List.sublist_cons_self _ _).countP_le
  have done {calls : List Progress} (settled : calls[t.call]? ≠ some .pending) :
      ∀ u ∈ t :: m.tickets, u ∈ m.tickets ∨ calls[u.call]? ≠ some .pending := by
    intro u mem
    rcases List.mem_cons.1 mem with rfl | mem
    · exact .inr settled
    · exact .inl mem
  cases closes with
  | told | panicked => exact h.answered (fun _ => Nat.le_refl _) _
  | @reported payload own waits =>
    rw [Orderly, entrants_wake rfl, tickets_wake rfl]
    refine h.change (fun _ => Nat.le_refl _) fewer (List.append_nil _).symm (by simp) (by simp) rfl
      (fun _ => .inl rfl) (fun u mem _ => ?_) (fun call ⟨c, x, mem⟩ _ => ⟨c, x, ?_⟩)
      (fun call ⟨c, x, mem⟩ => ?_)
    · rcases List.mem_cons.1 mem with rfl | mem
      · exact .inr ⟨command, payload, by simp [turns, wake]⟩
      · exact .inl mem
    · simp only [turns, wake, List.mem_append] at mem ⊢
      exact mem.imp_left .inl
    · simp only [turns, wake, List.mem_append, List.mem_singleton] at mem
      rcases mem with (mem | same) | mem
      · exact .inl ⟨c, x, by simp [turns, mem]⟩
      · cases same
        exact .inr ⟨t, by simp, rfl, own, others⟩
      · exact .inl ⟨c, x, by simp [turns, mem]⟩
  | unheard own given =>
    exact h.tell (.refl (fun _ _ => False) _) (fun _ => Nat.le_refl _) fewer (by simp)
      (done (by rwa [isPending_iff] at given)) (List.append_nil _).symm (by simp) (by simp)
      fun _ => .rfl
  | @replied a logs share own =>
    rw [Orderly, entrants_resume rfl, tickets_resume rfl]
    refine (h.answered (fun _ => Nat.le_refl _) a).quietly (fun _ => Nat.le_refl _) (fun _ => rfl)
      rfl (by simp) (by simp) rfl fun _ => ?_
    simp [hasReport, turns, resume, log]
  | buried own =>
    obtain ⟨calls, same, settled, settled', told⟩ := m.bury_eq t.call
    rw [same]
    rw [tickets_bury calls] at h done
    refine h.tell told (fun p => ?_) (fun p => ?_) ?_ ?_
      (List.append_nil _).symm (by simp) (by simp) fun _ => .rfl
    · simp [entrants, turns]
    · exact ((List.sublist_append_left ..).trans (List.sublist_cons_self ..)).countP_le
    · rintro call a ⟨rfl | ⟨p, mem', rfl⟩, -⟩ u mem
      · exact h.ne_of_cons (List.mem_append_left _ mem)
      · exact (h.ne_of_append (List.mem_cons_of_mem t mem) (List.mem_map_of_mem mem')).symm
    · intro u mem
      rcases done settled u mem with mem | given
      · rcases List.mem_append.1 mem with mem | mem
        · exact .inl mem
        · obtain ⟨p, mem', rfl⟩ := List.mem_map.1 mem
          exact .inr (settled' p mem')
      · exact .inr given

theorem within (h : m.Orderly) {stage : Stage} (held : m.gate.holder = some ⟨t, stage⟩)
    {news : List Note} (inner : ∀ n ∈ news, n.isInner) (stage' : Stage) (dispatcher : Dispatcher)
    (permits : Nat) : (m.within t stage' dispatcher permits news).Orderly := by
  have inside : m.gate.ticket? = some t := Gate.ticket?_eq_some.2 ⟨stage, held⟩
  refine h.quietly (fun _ => Nat.le_refl _) (fun _ => ?_) rfl ?_ ?_ rfl fun _ => .rfl
  · rw [tickets, tickets, inside]
    rfl
  · exact fun u mem => Bool.false_ne_true (inner _ mem)
  · exact fun call mem => absurd (inner _ mem) Bool.false_ne_true

theorem putOffProceed (h : m.Orderly) (share : Nat) : (m.putOff (.proceed share)).Orderly := by
  rw [Orderly, entrants_putOff rfl, tickets_putOff rfl]
  refine h.quietly (fun _ => Nat.le_refl _) (fun _ => rfl) (List.append_nil _).symm (by simp)
    (by simp) rfl fun _ => ?_
  simp [hasReport, turns, putOff]

theorem report (h : m.Orderly) {call : Nat} {command : Command} {payload : Payload}
    {ready deferred : List Turn}
    (next : m.turns = .report call command payload :: (ready ++ deferred)) :
    (Machine.report { m with ready, deferred } call command payload).Orderly := by
  obtain ⟨calls, same, settled, told⟩ :=
    (log { m with ready, deferred } [.aborted command]).answer_eq call _
  have empty : m.entrants = entrants { m with ready, deferred } := by
    simp only [entrants, next]
    rfl
  have total : m.tickets = tickets { m with ready, deferred } := by
    rw [tickets, empty]
    rfl
  rw [Machine.report, same]
  have others := (h.reported call ⟨command, payload, by simp [next]⟩).2
  refine h.change (fun p => ?_) (fun p => ?_) rfl (by simp) (by simp) told.length (fun call' => ?_)
    (fun t mem _ => .inl (total ▸ mem)) (fun call' reports pending => ?_)
    fun call' reports => .inl ?_
  · exact Nat.le_of_eq (congrArg _ empty.symm)
  · exact Nat.le_of_eq (congrArg _ total.symm)
  · rcases told.each call' with same | ⟨-, a, ⟨one, -⟩, answered⟩
    · exact .inl same
    · refine .inr ⟨by simp [isPending_iff, answered], fun t mem same => ?_⟩
      rw [total] at others
      exact absurd (same.trans one) (others t mem)
  · obtain ⟨c, x, mem⟩ := reports
    rw [next, List.mem_cons] at mem
    rcases mem with one | mem
    · cases one
      exact absurd (isPending_iff.1 pending) settled
    · exact ⟨c, x, mem⟩
  · obtain ⟨c, x, mem⟩ := reports
    exact ⟨c, x, next ▸ List.mem_cons_of_mem _ mem⟩

/-- With a turn taken out of the queue its ticket is in nobody's hand but that turn's. -/
theorem pick (h : m.Orderly) {turn : Turn} {ready deferred : List Turn}
    (next : m.turns = turn :: (ready ++ deferred))
    (other : ∀ call command payload, turn ≠ .report call command payload) :
    Tracked (turn.ticket?.toList ++ entrants { m with ready, deferred })
      (turn.ticket?.toList ++ tickets { m with ready, deferred }) { m with ready, deferred } := by
  have rest : turns { m with ready, deferred } = ready ++ deferred := rfl
  refine h.quietly (fun p => ?_) (fun p => ?_) (List.append_nil _).symm (by simp) (by simp) rfl
    fun call => ?_
  · rw [entrants, entrants, next, rest]
    cases carried : turn.ticket? <;> simp [carried, List.countP_cons]
  · rw [tickets, tickets, entrants, entrants, next, rest]
    cases carried : turn.ticket? <;> simp [carried, List.countP_cons]
    omega
  · rw [hasReport, hasReport, next, rest]
    constructor
    · exact fun ⟨command, payload, mem⟩ => ⟨command, payload, List.mem_cons_of_mem _ mem⟩
    · exact fun ⟨command, payload, mem⟩ => ⟨command, payload,
        (List.mem_cons.1 mem).resolve_left fun same => other call command payload same.symm⟩

theorem openCall (h : m.Orderly) (new : t.call = m.calls.length)
    (owned : ∀ state, t.work = .arrange state → t.seat = .caller) :
    Tracked (t :: m.entrants) (t :: m.tickets) (m.openCall t) := by
  have others : ∀ u ∈ m.tickets, u.call ≠ t.call := fun u mem =>
    new ▸ Nat.ne_of_lt (h.inRange mem)
  have older {call : Nat} (less : call < m.calls.length) :
      (m.openCall t).calls[call]? = m.calls[call]? := List.getElem?_append_left less
  have unheard : ticketOf m.journal t.call = none := by
    cases known : ticketOf m.journal t.call with
    | none => rfl
    | some u =>
      have less := h.numbered u (mem_of_ticketOf known)
      rw [ticketOf_call known, new] at less
      exact absurd less (Nat.lt_irrefl _)
  have journal : (m.openCall t).journal = m.journal ++ [.opened t] := rfl
  have length : (m.openCall t).calls.length = m.calls.length + 1 := List.length_append
  have pending : (m.openCall t).isPending t.call := by
    simp [isPending_iff, Machine.openCall, note, new]
  constructor
  case once =>
    intro call
    by_cases same : t.call = call
    · have nobody : m.tickets.countP (·.call == call) = 0 :=
        List.countP_eq_zero.2 fun u mem => by simp [← same, others u mem]
      simp [nobody, same]
    · rw [List.countP_cons_of_neg (by simp [same])]
      exact h.once call
  case known =>
    intro u mem
    rw [journal, ticketOf_append]
    rcases List.mem_cons.1 mem with rfl | mem
    · rw [unheard, Option.none_or]
      simp [ticketOf, Note.ticket?]
    · rw [h.known u mem, Option.some_or]
  case fresh =>
    intro u mem seen
    have before : .admitted u.call ∈ m.journal := by simpa [journal] using seen
    rcases List.mem_cons.1 mem with rfl | mem
    · exact absurd (new ▸ h.came _ before) (Nat.lt_irrefl _)
    · exact h.fresh u mem before
  case unanswered =>
    intro u mem
    rcases List.mem_cons.1 mem with rfl | mem
    · exact .inl pending
    · rw [isPending_iff, older (h.inRange mem), ← isPending_iff]
      exact h.unanswered u mem
  case waits =>
    intro u mem waits
    rcases List.mem_append.1 (journal ▸ mem) with mem | mem
    · rw [isPending_iff, older (h.numbered u mem), ← isPending_iff] at waits
      exact (h.waits u mem waits).imp_left (List.mem_cons_of_mem t)
    · cases List.mem_singleton.1 mem
      exact .inl List.mem_cons_self
  case numbered =>
    intro u mem
    rw [length]
    rcases List.mem_append.1 (journal ▸ mem) with mem | mem
    · exact Nat.lt_succ_of_lt (h.numbered u mem)
    · cases List.mem_singleton.1 mem
      omega
  case came =>
    intro call mem
    rw [length]
    exact Nat.lt_succ_of_lt (h.came call (by simpa [journal] using mem))
  case opened =>
    intro call less
    rw [length] at less
    by_cases last : call = m.calls.length
    · exact ⟨t, by simp [journal], new.trans last.symm⟩
    · obtain ⟨u, mem, same⟩ := h.opened call (by omega)
      exact ⟨u, by simp [journal, mem], same⟩
  case reported =>
    intro call report
    obtain ⟨⟨u, known, seat⟩, others⟩ := h.reported call report
    refine ⟨⟨u, journal ▸ ticketOf_of_append _ known, seat⟩, fun v mem same => ?_⟩
    rcases List.mem_cons.1 mem with rfl | mem
    · rw [← same, unheard] at known
      cases known
    · exact others v mem same
  case owned =>
    intro u mem
    rcases List.mem_append.1 (journal ▸ mem) with mem | mem
    · exact h.owned u mem
    · cases List.mem_singleton.1 mem
      exact owned

theorem withdraws (h : m.Orderly) {call : Nat} (suspended : m.Suspended call)
    (waits : m.isPending call) (outside : ¬ m.gate.heldBy call) :
    Orderly { m with
      calls := m.calls.set call .abandoned
      gate := m.gate.withdraw call
      channel := m.channel.withdraw call } := by
  have inRange := (List.getElem?_eq_some_iff.1 (isPending_iff.1 waits)).1
  have now : (m.calls.set call .abandoned)[call]? = some .abandoned :=
    List.getElem?_set_self inRange
  have less : (entrants { m with
      calls := m.calls.set call .abandoned
      gate := m.gate.withdraw call
      channel := m.channel.withdraw call }).Sublist m.entrants :=
    ((List.Sublist.refl _).append List.filter_sublist).append
      (((List.Sublist.refl _).append List.filter_sublist).map _)
  refine h.change (fun _ => less.countP_le) (fun _ => ((List.Sublist.refl _).append less).countP_le)
    (List.append_nil _).symm (by simp) (by simp) List.length_set (fun call' => ?_)
    (fun t mem pending => ?_) (fun _ report _ => report) fun _ report => .inl report
  · by_cases same : call = call'
    · subst same
      refine .inr ⟨by simp [isPending_iff, now], fun t mem same => ?_⟩
      refine ⟨fun own => ?_, now⟩
      simp only [tickets, entrants, List.mem_append, Option.mem_toList] at mem
      rcases mem with mem | (mem | mem) | mem
      · exact outside (Gate.heldBy_iff.2 ⟨t, mem, same, own⟩)
      · exact suspended.other mem same own
      · exact (Gate.mem_waiting_withdraw.1 mem).2 same own
      · obtain ⟨p, -, rfl⟩ := List.mem_map.1 mem
        cases own
    · exact .inl (List.getElem?_set_ne same)
  · have other : t.call ≠ call := by
      rintro rfl
      simp [isPending_iff, now] at pending
    simp only [tickets, entrants, List.mem_append, Option.mem_toList, List.map_append] at mem ⊢
    refine .inl (mem.imp_right fun mem => ?_)
    rcases mem with (mem | mem) | mem | mem
    · exact .inl (.inl mem)
    · exact .inl (.inr (Gate.mem_waiting_withdraw.2 ⟨mem, fun same => absurd same other⟩))
    · exact .inr (.inl mem)
    · obtain ⟨p, mem', rfl⟩ := List.mem_map.1 mem
      exact .inr (.inr (List.mem_map_of_mem (Channel.mem_waiting_withdraw.2 ⟨mem', other⟩)))

theorem givesUp (h : Tracked m.entrants (t :: m.tickets) m) :
    (m.setProgress t.call .abandoned).Orderly := by
  have inRange := h.inRange List.mem_cons_self
  have now : (m.calls.set t.call .abandoned)[t.call]? = some .abandoned :=
    List.getElem?_set_self inRange
  refine h.change (fun _ => Nat.le_refl _) (fun p => ?_) (List.append_nil _).symm (by simp)
    (by simp) List.length_set (fun call => ?_) (fun u mem pending => .inl ?_)
    (fun _ report _ => report) fun _ report => .inl report
  · exact (List.sublist_cons_self t m.tickets).countP_le
  · by_cases same : t.call = call
    · subst same
      refine .inr ⟨?_, fun u mem same => absurd same (h.ne_of_cons mem)⟩
      simp [isPending_iff, setProgress, now]
    · exact .inl (List.getElem?_set_ne same)
  · refine (List.mem_cons.1 mem).resolve_left ?_
    rintro rfl
    simp [isPending_iff, setProgress, now] at pending

theorem start (d : Dispatcher) (capacity : Nat) : (Machine.start d capacity).Orderly where
  once := by simp [tickets, entrants, turns, Machine.start, Channel.withCapacity]
  known := by simp [tickets, entrants, turns, Machine.start, Channel.withCapacity]
  fresh := by simp [entrants, turns, Machine.start, Channel.withCapacity]
  unanswered := by simp [tickets, entrants, turns, Machine.start, Channel.withCapacity]
  waits := by simp [Machine.start]
  numbered := by simp [Machine.start]
  came := by simp [Machine.start]
  opened := by simp [Machine.start]
  reported := by simp [Machine.start, hasReport, turns]
  owned := by simp [Machine.start]

end Tracked

theorem ticket?_eq_some {v : Move} (opening : v.ticket? m.calls.length = some t) :
    t.call = m.calls.length ∧ ∀ state, t.work = .arrange state → t.seat = .caller := by
  cases v with
  | dispatch => cases opening; exact ⟨rfl, nofun⟩
  | arrange => cases opening; exact ⟨rfl, fun _ _ => rfl⟩
  | release | abandon => cases opening

def TrackedIn (hand : Hand) (m : Machine) : Prop :=
  Tracked (hand.comer?.toList ++ m.entrants) (hand.ticket?.toList ++ m.tickets) m

namespace TrackedIn

variable {hand hand' : Hand} (h : TrackedIn hand m)
include h

theorem moves (outside : ∀ p, (hand'.comer?.toList ++ m'.entrants).countP p =
      (hand.comer?.toList ++ m.entrants).countP p) (here : hand.ticket? = hand.comer?)
    (there : hand'.ticket? = hand'.comer?) (inside : m'.gate.ticket? = m.gate.ticket?)
    {news : List Note} (journal : m'.journal = m.journal ++ news) (opened : ∀ t, .opened t ∉ news)
    (admitted : ∀ call, .admitted call ∉ news) (calls : m'.calls = m.calls)
    (reports : ∀ call, m'.hasReport call ↔ m.hasReport call) : TrackedIn hand' m' := by
  -- Counts by every predicate stand for a permutation: unlike one, they can be added up.
  refine Tracked.quietly h (fun p => Nat.le_of_eq (outside p)) (fun p => ?_) journal opened
    (fun call mem => absurd mem (admitted call)) calls reports
  have same := outside p
  rw [here, there, tickets, tickets, inside]
  simp only [List.countP_append] at same ⊢
  omega

theorem putsOff {turn turn' : Turn} (again : turn.Again turn') (taken : hand = .turn turn) :
    TrackedIn .empty (m.putOff turn') := by
  subst taken
  refine h.moves (fun p => ?_) rfl rfl rfl (List.append_nil _).symm (by simp) (by simp) rfl
    fun _ => ?_
  · cases turn <;> cases again <;>
      simp [Hand.comer?, Hand.ticket?, entrants, turns, putOff, List.filterMap_cons,
        List.countP_cons]
    omega
  · cases turn <;> cases again <;> simp [hasReport, turns, putOff]

theorem enters (share : Nat) (free : m.gate.holder = none) (taken : hand = .turn (.arrive t)) :
    TrackedIn .empty { m with
      gate := { m.gate with holder := some { ticket := t } }
      journal := m.journal ++ [.admitted t.call]
      ready := .proceed share :: m.ready } := by
  subst taken
  have nobody : m.gate.ticket? = none := by simp [Gate.ticket?, free]
  refine Tracked.quietly h (fun p => ?_) (fun p => ?_) rfl (by simp) ?_ rfl fun _ => ?_
  · simp [Hand.comer?, Hand.ticket?, entrants, turns, List.filterMap_cons, List.countP_cons]
  · simp [Hand.ticket?, tickets, entrants, turns, nobody, List.filterMap_cons, List.countP_cons]
  · simp only [List.mem_singleton, Note.admitted.injEq]
    rintro _ rfl
    refine ⟨t, rfl, fun p => ?_⟩
    simp [Hand.comer?, Hand.ticket?, tickets, entrants, turns, nobody, List.filterMap_cons,
      List.countP_cons]
  · simp [hasReport, turns]

theorem takes {share : Nat} {p : Post} {ps : List Post} (queue : m.channel.queue = p :: ps)
    (taken : hand = .turn (.collect share)) : TrackedIn (.turn (.arrive p.ticket)) { m with
      channel := { m.channel with queue := ps, waiting := m.channel.waiting.tail }
      ready := m.ready ++ (m.channel.waiting.head?.map Turn.place).toList
      journal := m.journal ++ [.taken p.call] } := by
  subst taken
  refine h.moves (fun q => ?_) rfl rfl rfl rfl (by simp) (by simp) rfl fun _ => ?_
  · cases waiting : m.channel.waiting <;>
      simp [Hand.comer?, Hand.ticket?, entrants, turns, queue, waiting, List.countP_cons] <;> omega
  · cases waiting : m.channel.waiting <;> simp [hasReport, turns]

theorem places {p : Post} (carries : hand.comer? = some p.ticket)
    (same : hand.ticket? = hand.comer?) (places : Places m p m') : TrackedIn .empty m' := by
  have outside : Tracked (p.ticket :: m.entrants) (p.ticket :: m.tickets) m := by
    rwa [TrackedIn, same, carries] at h
  cases places with
  | refused => exact outside.answered (fun _ => (List.sublist_cons_self ..).countP_le) _
  | rouses =>
    refine h.moves (fun q => ?_) same rfl rfl rfl (by simp) (by simp) rfl fun _ => ?_
    · rw [carries]
      simp [Hand.comer?, Hand.ticket?, entrants, turns, List.filterMap_cons, List.countP_cons]
      omega
    · simp [hasReport, turns]
  | queues =>
    refine h.moves (fun q => ?_) same rfl rfl rfl (by simp) (by simp) rfl fun _ => .rfl
    rw [carries]
    simp [Hand.comer?, Hand.ticket?, entrants, turns, List.countP_cons]
    omega

theorem act (act : Act m hand hand' m') : TrackedIn hand' m' := by
  cases act with
  | steps | sleeps | makes | stays | settled => exact h
  | picks next other => exact Tracked.pick h next other
  | reports next => exact Tracked.report h next
  | putsOff again => exact h.putsOff again rfl
  | enters share free => exact h.enters share free rfl
  | waits held =>
    refine h.moves (fun p => ?_) rfl rfl rfl (List.append_nil _).symm (by simp) (by simp) rfl
      fun _ => .rfl
    simp [Hand.comer?, Hand.ticket?, entrants, turns, List.countP_cons]
    omega
  | rests | releases | clearHistory | clearEvents =>
    exact h.moves (fun _ => rfl) rfl rfl rfl (List.append_nil _).symm (by simp) (by simp) rfl
      fun _ => .rfl
  | takes queue => exact h.takes queue rfl
  | places asks placed =>
    rcases asks with rfl | ⟨rfl, -⟩
    · exact h.places rfl rfl placed
    · exact h.places rfl rfl placed
  | lines =>
    refine h.moves (fun p => ?_) rfl rfl rfl (List.append_nil _).symm (by simp) (by simp) rfl
      fun _ => .rfl
    simp [Hand.comer?, Hand.ticket?, entrants, turns, List.countP_cons]
    omega
  | runs needs held begins => exact (Tracked.within h held begins.inner ..).putOffProceed _
  | blocks needs held begins => exact Tracked.within h held begins.inner ..
  | publishes held publishes => exact (Tracked.within h held publishes.inner ..).putOffProceed _
  | leaves stage' permits held publishes records =>
    refine Tracked.passOn (Tracked.within h held ?_ ..) rfl
    exact List.forall_mem_append.2 ⟨publishes.inner, records.inner⟩
  | closes closes => exact Tracked.closes h closes
  | arranges held => exact Tracked.passOn (Tracked.within h held (by simp [Note.isInner]) ..) rfl
  | forces => exact Tracked.answered h (fun _ => Nat.le_refl _) _
  | opens opening | asks opening =>
    obtain ⟨new, owned⟩ := ticket?_eq_some opening
    exact Tracked.openCall h new owned
  | comes =>
    refine h.moves (fun p => ?_) rfl rfl rfl (List.append_nil _).symm (by simp) (by simp) rfl
      fun _ => ?_
    · simp [Hand.comer?, Hand.ticket?, entrants, turns, wake, List.countP_cons]
      omega
    · simp [hasReport, turns, wake]
  | rouses =>
    refine h.moves (fun p => ?_) rfl rfl rfl (List.append_nil _).symm (by simp) (by simp) rfl
      fun _ => ?_
    · simp [Hand.comer?, Hand.ticket?, entrants, turns, wake, List.filterMap_cons]
    · simp [hasReport, turns, wake]
  | handsOn _ _ inside => exact Tracked.passOn h inside
  | givesUp => exact Tracked.givesUp h
  | withdraws suspended waits outside => exact Tracked.withdraws h suspended waits outside
  | refusedFrame =>
    exact h.moves (fun _ => rfl) rfl rfl rfl rfl (by simp) (by simp) rfl fun _ => .rfl

end TrackedIn

variable {hand : Hand} {d : Dispatcher} {capacity : Nat}

theorem Midway.tracked (h : Midway d capacity hand m) : TrackedIn hand m := by
  induction h with
  | start => exact Tracked.start d capacity
  | act _ act ih => exact ih.act act

theorem Reachable.orderly (h : Reachable d capacity m) : m.Orderly := h.midway.tracked

end Machine

end Lifecycle
