import Lifecycle.Proofs.ChannelFailure
import Lifecycle.Proofs.Procession

/-! Who is admitted before whom. Those who come to the gate by themselves are admitted in the order
in which they were started, the requests of the channel in the order in which they entered it, and
between the start of somebody and its admission the worker finishes at most one request. -/

namespace Lifecycle

def Note.admitted? : Note → Option Nat
  | .admitted call => some call
  | _ => none

theorem Note.admitted?_of_isAside {n : Note} (h : n.isAside) : n.admitted? = none := by
  cases n <;> first | rfl | cases h

theorem mem_admitted {j : List Note} {call : Nat} :
    call ∈ j.filterMap Note.admitted? ↔ .admitted call ∈ j := by
  rw [List.mem_filterMap]
  constructor
  · rintro ⟨n, mem, same⟩
    cases n <;> cases same
    exact mem
  · exact fun mem => ⟨_, mem, rfl⟩

theorem admissions_sublist (j : List Note) :
    ((j.filterMap Note.admitted?).map Note.admitted).Sublist j := by
  induction j with
  | nil => exact .slnil
  | cons n j ih =>
    cases n with
    | admitted call => exact ih.cons_cons _
    | _ => exact ih.cons _

theorem Lawful.admitted_eq {d : Dispatcher} {j : List Note} {a : Standing} (h : Lawful d j a) :
    j.filterMap Note.admitted? =
      j.filterMap Note.left? ++ a.phase.ticket?.toList.map Ticket.call := by
  induction h with
  | nil => rfl
  | snoc before next ih =>
    rw [filterMap_snoc, filterMap_snoc, ih]
    cases next with
    | aside silent => simp [Note.admitted?_of_isAside silent, Note.left?_of_isAside silent]
    | _ => simp [Note.admitted?, Note.left?, Phase.ticket?]

theorem pair_sublist {ts : List Ticket} {t u : Ticket}
    (ordered : (ts.filter (!·.isSent)).Pairwise (·.call < ·.call)) (own : t.isSent = false)
    (own' : u.isSent = false) (mem : t ∈ ts) (mem' : u ∈ ts) (less : t.call < u.call) :
    [t, u].Sublist ts := by
  refine .trans ?_ (List.filter_sublist (p := fun t => !t.isSent))
  have mem : t ∈ ts.filter (!·.isSent) := List.mem_filter.2 ⟨mem, by simp [own]⟩
  have mem' : u ∈ ts.filter (!·.isSent) := List.mem_filter.2 ⟨mem', by simp [own']⟩
  obtain ⟨before, after, same⟩ := List.append_of_mem mem'
  rw [same] at ordered mem ⊢
  obtain ⟨-, behind, -⟩ := List.pairwise_append.1 ordered
  rcases List.mem_append.1 mem with ahead | mem
  · exact (List.singleton_sublist.2 ahead).append (List.singleton_sublist.2 List.mem_cons_self)
  · rcases List.mem_cons.1 mem with rfl | after
    · exact absurd less (Nat.lt_irrefl _)
    · exact absurd less (Nat.lt_asymm (List.rel_of_pairwise_cons behind after))

namespace Machine

variable {d : Dispatcher} {capacity : Nat} {m m' : Machine} {t u : Ticket} {gone : List Ticket}

theorem mem_opened : t ∈ m.approach.opened ↔ .opened t ∈ m.journal := by
  rw [approach, List.mem_filterMap]
  constructor
  · rintro ⟨n, mem, same⟩
    cases n <;> cases same
    exact mem
  · exact fun mem => ⟨_, mem, rfl⟩

theorem mem_coming (own : t.isSent = false) : t ∈ m.approach.coming ↔ .arrive t ∈ m.turns := by
  rw [approach, List.mem_filterMap]
  constructor
  · rintro ⟨turn, mem, comes⟩
    cases turn with
    | arrive u =>
      cases sent : u.isSent <;> simp only [Turn.comer?, sent] at comes <;> cases comes
      exact mem
    | _ => cases comes
  · exact fun mem => ⟨_, mem, Turn.comer?_of_own own⟩

theorem Midway.nears_later {hand : Hand} {k : Nat} (before : Midway d capacity hand m)
    (acts : Acts hand m m') (sound : (approachIn hand m).Sound gone)
    (nears : (approachIn hand m).Nears u k gone) :
    ∃ out, m'.approach.Sound (gone ++ out) ∧ m'.approach.Nears u k (gone ++ out) := by
  -- That nobody gets ahead is kept only together with the order of those who come.
  induction acts generalizing gone with
  | last act =>
    obtain ⟨out, advances⟩ := before.advances act
    rw [approachIn_empty] at advances
    exact ⟨out, sound.advances advances, nears.advances sound advances⟩
  | more act _ _ ih =>
    obtain ⟨out, advances⟩ := before.advances act
    obtain ⟨more, kept⟩ := ih (before.act act) (sound.advances advances)
      (nears.advances sound advances)
    exact ⟨out ++ more, by rwa [← List.append_assoc]⟩

section reachable

variable (h : Reachable d capacity m)
include h

theorem Reachable.admitted_eq : m.journal.filterMap Note.admitted? =
    m.journal.filterMap Note.left? ++ m.gate.ticket?.toList.map Ticket.call := by
  rw [h.lawful.admitted_eq, m.gate.phase_ticket?]

theorem Reachable.in_procession (sound : m.approach.Sound gone) (own : t.isSent = false)
    (opened : .opened t ∈ m.journal) :
    t ∈ gone ++ m.row ++ m.approach.coming ∨
      t.seat = .caller ∧ m.calls[t.call]? = some .abandoned := by
  rcases h.midway.at_gate (by simpa [Ticket.isSent] using own) opened with here | left | gaveUp
  · rcases mem_visitors.1 here with comes | inside | waits
    · exact .inl (List.mem_append_right _ ((mem_coming own).2 comes))
    · exact .inl (by simp [row, inside])
    · exact .inl (by simp [row, waits])
  · have mem : t.call ∈ gone.map Ticket.call :=
      sound.left ▸ List.mem_filterMap.2 ⟨_, left, rfl⟩
    obtain ⟨u, mem, same⟩ := List.mem_map.1 mem
    have known := sound.known u (by simp [mem])
    rw [← sound.eq_of_call known (mem_opened.2 opened) same]
    exact .inl (by simp [mem])
  · exact .inr gaveUp

theorem Reachable.admitted_of_sound (sound : m.approach.Sound gone) :
    m.journal.filterMap Note.admitted? = (gone ++ m.gate.ticket?.toList).map Ticket.call := by
  rw [h.admitted_eq, List.map_append, sound.left]
  rfl

theorem Reachable.mem_admitted_iff (sound : m.approach.Sound gone)
    (opened : .opened t ∈ m.journal) :
    .admitted t.call ∈ m.journal ↔ t ∈ gone ++ m.gate.ticket?.toList := by
  rw [← mem_admitted, h.admitted_of_sound sound]
  refine ⟨fun mem => ?_, List.mem_map_of_mem⟩
  obtain ⟨u, mem, same⟩ := List.mem_map.1 mem
  have first : u ∈ gone ++ m.row ++ m.approach.coming := by
    simp only [row, List.mem_append] at mem ⊢
    exact .inl (mem.imp_right .inl)
  rwa [sound.eq_of_call (mem_opened.2 opened) (sound.known u first) same.symm]

theorem Reachable.admitted_in_turn (own : t.isSent = false) (own' : u.isSent = false)
    (order : [.opened t, .opened u].Sublist m.journal) (admitted : .admitted u.call ∈ m.journal) :
    [.admitted t.call, .admitted u.call].Sublist m.journal ∨
      t.seat = .caller ∧ m.calls[t.call]? = some .abandoned ∧ .admitted t.call ∉ m.journal := by
  obtain ⟨gone, sound⟩ := h.in_order
  have opened : .opened t ∈ m.journal := order.subset (by simp)
  have opened' : .opened u ∈ m.journal := order.subset (by simp)
  have less : t.call < u.call := by
    have started : [t, u].Sublist m.approach.opened := order.filterMap Note.ticket?
    have started := started.map Ticket.call
    rw [sound.numbered] at started
    simpa using List.pairwise_lt_range.sublist started
  have ordered := sound.ordered
  have split : gone ++ m.approach.row ++ m.approach.coming =
      (gone ++ m.gate.ticket?.toList) ++ (m.gate.waiting ++ m.approach.coming) := by
    simp [approach, row]
  rw [split, List.filter_append, List.pairwise_append] at ordered
  obtain ⟨first, -, across⟩ := ordered
  rw [h.mem_admitted_iff sound opened'] at admitted
  by_cases came : .admitted t.call ∈ m.journal
  · have came' := (h.mem_admitted_iff sound opened).1 came
    have pair := (pair_sublist first own own' came' admitted less).map Ticket.call
    rw [← h.admitted_of_sound sound] at pair
    exact .inl ((pair.map Note.admitted).trans (admissions_sublist m.journal))
  · refine .inr ?_
    have notFirst := mt (h.mem_admitted_iff sound opened).2 came
    rcases h.in_procession sound own opened with place | ⟨attached, gave⟩
    · rw [show gone ++ m.row ++ m.approach.coming = _ from split, List.mem_append] at place
      have later := across u (List.mem_filter.2 ⟨admitted, by simp [own']⟩) t
        (List.mem_filter.2 ⟨place.resolve_left notFirst, by simp [own]⟩)
      exact absurd less (Nat.lt_asymm later)
    · exact ⟨attached, gave, came⟩

theorem Reachable.countP_row_le : m.row.countP Ticket.isSent ≤ 1 := by
  have one := h.length_atGate
  rw [atGate, ← List.countP_eq_length_filter, visitors, List.countP_append] at one
  exact Nat.le_trans (Nat.le_add_left ..) one

theorem Reachable.sent_in_order : ((m.journal.filterMap Note.admitted?).filter fun call =>
    (ticketOf m.journal call).any Ticket.isSent) <+: m.entered := by
  have taken : m.journal.filterMap Note.taken? <+: m.entered := h.sound.taken
  refine List.IsPrefix.trans ?_ taken
  rw [h.taken_eq, h.admitted_eq, List.filter_append]
  refine (List.prefix_append_right_inj _).2 ?_
  cases inside : m.gate.ticket? with
  | none => exact List.nil_prefix
  | some t =>
    have known := h.orderly.known t (by simp [tickets, inside])
    have here : t ∈ m.visitors := mem_visitors.2 (.inr (.inl inside))
    cases sent : t.isSent with
    | false => simp [known, sent]
    | true =>
      have mem : t ∈ m.atGate .worker := List.mem_filter.2 ⟨here, sent⟩
      have one := Nat.le_antisymm h.length_atGate (List.length_pos_of_mem mem)
      obtain ⟨u, only⟩ := List.length_eq_one_iff.1 one
      rw [only, List.mem_singleton] at mem
      subst mem
      simp [known, sent, only]

theorem Reachable.starts (quiet : m.isQuiet) {v : Move} (opens : v.opens)
    (unsent : v.sends = false) :
    ∃ t, t.call = m.calls.length ∧ t.isSent = false ∧ Reachable d capacity (m.submit v).step ∧
      (m.submit v).step.approach = { m.approach with
        calls := m.approach.calls + 1, opened := m.approach.opened ++ [t]
        row := m.approach.row ++ [t] } := by
  have reachable : Reachable d capacity (m.submit v).step :=
    (h.tail (.move v (timely_of_quiet quiet v))).tail .turn
  obtain ⟨idle, none⟩ := isQuiet_iff.1 quiet
  have joins (t : Ticket) (comes : m.submit v = (m.openCall t).wake (.arrive t)) :
      (m.submit v).step.approach = { m.approach with
        calls := m.approach.calls + 1, opened := m.approach.opened ++ [t]
        row := m.approach.row ++ [t] } := by
    have next : (m.submit v).ready = .arrive t :: [] := by simp [comes, wake, openCall, note, idle]
    have attended : Attended { m.submit v with ready := [] } := by
      refine h.attended.frame ?_ ?_ fun share mem => ?_
      · rw [comes]
        rfl
      · rw [comes]
        rfl
      · simp [turns, idle, none] at mem
    rw [step_of_ready next, take, fairShare, approach_arrive attended]
    simp [comes, wake, openCall, note, approach, row, turns, idle, none, Note.ticket?, Note.left?,
      List.filterMap_cons]
  cases v with
  | dispatch path command args =>
    cases path with
    | attached | detached => exact ⟨_, rfl, rfl, reachable, joins _ rfl⟩
    | queued => cases unsent
  | arrange state => exact ⟨_, rfl, rfl, reachable, joins _ rfl⟩
  | release | abandon => cases opens

/-- As long as somebody is on its way to the gate the worker gets ahead of it once at most, and what
it has got ahead with is all that it finishes before. -/
theorem Reachable.nears_later {k : Nat} (sound : m.approach.Sound gone)
    (nears : m.approach.Nears u k gone) (later : Reaches m m') :
    ∃ out, m'.approach.Sound (gone ++ out) ∧ m'.approach.Nears u k (gone ++ out) := by
  induction later with
  | refl =>
    refine ⟨[], ?_⟩
    rw [List.append_nil]
    exact ⟨sound, nears⟩
  | tail reaches change ih =>
    obtain ⟨out, sound, nears⟩ := ih
    have between : Reachable d capacity _ := h.trans reaches
    rw [← approachIn_empty] at sound nears
    obtain ⟨more, kept⟩ := between.midway.nears_later change.acts sound nears
    exact ⟨out ++ more, by rwa [← List.append_assoc]⟩

theorem Reachable.left_before {before since : List Note} {call : Nat}
    (same : m.journal = before ++ .admitted call :: since) :
    m.journal.filterMap Note.admitted? =
      before.filterMap Note.left? ++ call :: since.filterMap Note.admitted? := by
  obtain ⟨a, b, lawful, next, -⟩ := (same ▸ h.lawful).at_note
  rw [same, List.filterMap_append, lawful.admitted_eq]
  cases next with
  | aside silent => cases silent
  | enter => simp [Phase.ticket?, Note.admitted?]

theorem Reachable.ticketOf_of_known (sound : m.approach.Sound gone)
    (known : t ∈ m.approach.opened) : ticketOf m.journal t.call = some t := by
  obtain ⟨u, same⟩ := h.orderly.ticketOf_of_lt (sound.call_lt known)
  have call := ticketOf_call same
  rw [same, sound.eq_of_call (mem_opened.2 (mem_of_ticketOf same)) known call]

theorem Reachable.overtaken_once (quiet : m.isQuiet) {v : Move} (opens : v.opens)
    (unsent : v.sends = false) (later : Reaches (m.submit v).step m') {before since : List Note}
    (same : m'.journal = m.journal ++ before ++ .admitted m.calls.length :: since) :
    ((before.filterMap Note.left?).filter fun call =>
      (ticketOf m'.journal call).any Ticket.isSent).length ≤ 1 := by
  obtain ⟨u, new, own, started, path⟩ := h.starts quiet opens unsent
  obtain ⟨gone, sound⟩ := h.in_order
  have alone : m.approach.coming = [] := by
    rw [approach, isQuiet_iff_turns.1 quiet]
    rfl
  have begun := Approach.Nears.of_joins sound h.countP_row_le alone own new
  have reachable : Reachable d capacity m' := started.trans later
  obtain ⟨out, sound', nears⟩ :=
    started.nears_later (path ▸ begun.1) (path ▸ begun.2) later
  -- Whoever left since the start and whoever is inside were admitted in this order, `u` among them.
  have admitted := reachable.admitted_of_sound sound'
  rw [reachable.left_before same, List.filterMap_append, List.append_assoc, List.append_assoc,
    List.map_append, sound.left] at admitted
  have rest := (List.append_cancel_left admitted).symm
  obtain ⟨ahead, behind, split, calls, others⟩ := List.map_eq_append_iff.1 rest
  obtain ⟨w, behind, rfl, call, -⟩ := List.map_eq_cons_iff.1 others
  have row : out ++ m'.row = ahead ++ w :: (behind ++ m'.gate.waiting) := by
    rw [row, ← List.append_assoc, split]
    simp
  have known : ∀ x ∈ out ++ m'.row, x ∈ m'.approach.opened := fun x mem => by
    refine sound'.known x (List.mem_append_left _ ?_)
    rw [List.append_assoc]
    exact List.mem_append_right _ mem
  rw [row] at known
  cases sound'.eq_of_call (known w (by simp)) nears.known (call.trans new.symm)
  have few := nears.few ahead (behind ++ m'.gate.waiting) (by
    rw [List.drop_left]
    exact row)
  rw [← calls, ← List.countP_eq_length_filter, List.countP_map]
  refine Nat.le_trans (Nat.le_of_eq (List.countP_congr fun x mem => ?_)) few
  simp [reachable.ticketOf_of_known sound' (known x (by simp [mem]))]

end reachable

/-- To whom the gate is given when. -/
structure InTurn (m : Machine) : Prop where
  /-- Those who come by themselves are admitted in the order in which they were started. Only a
  caller in its own time can fall out of it, by giving up, and then it is not admitted at all. -/
  own : ∀ t u, t.isSent = false → u.isSent = false →
    [.opened t, .opened u].Sublist m.journal → .admitted u.call ∈ m.journal →
    [.admitted t.call, .admitted u.call].Sublist m.journal ∨
      t.seat = .caller ∧ m.calls[t.call]? = some .abandoned ∧ .admitted t.call ∉ m.journal
  sent : ((m.journal.filterMap Note.admitted?).filter fun call =>
    (ticketOf m.journal call).any Ticket.isSent) <+: m.entered
  single : m.row.countP Ticket.isSent ≤ 1
  /-- Whoever starts while nothing can go on has the next turn. From then to its admission the
  worker leaves the gate once at most, however many requests wait for it. -/
  overtaken : m.isQuiet → ∀ v : Move, v.opens → v.sends = false →
    ∀ m', Reaches (m.submit v).step m' → ∀ before since,
      m'.journal = m.journal ++ before ++ .admitted m.calls.length :: since →
      ((before.filterMap Note.left?).filter fun call =>
        (ticketOf m'.journal call).any Ticket.isSent).length ≤ 1

/-- In every configuration of every run the gate has been given in turn. -/
theorem gate_given_in_turn (h : Reachable d capacity m) : m.InTurn where
  own _ _ own own' order admitted := h.admitted_in_turn own own' order admitted
  sent := h.sent_in_order
  single := h.countP_row_le
  overtaken quiet _ opens unsent _ later _ _ same := h.overtaken_once quiet opens unsent later same

/-- Behind two requests of the channel wait a caller, which gives up, a task and an arrangement. -/
theorem gate_given_in_turn_behind_two_requests :
    ∃ m : Machine, Reachable .patient 2 m ∧ m.InTurn ∧
      m.journal.filterMap Note.admitted? = [0, 3, 4, 1] ∧ m.entered = [0, 1] ∧
      m.calls[2]? = some .abandoned := by
  have reachable := reachable_run .patient 2
    [.dispatch .queued .start .empty, .dispatch .queued .pause .empty,
      .dispatch .attached .stop .empty, .dispatch .detached .pause .empty, .arrange .error,
      .abandon 2, .release 2]
  have turns := gate_given_in_turn reachable
  refine ⟨_, reachable, turns, ?_, ?_, ?_⟩ <;> rfl

end Machine

end Lifecycle
