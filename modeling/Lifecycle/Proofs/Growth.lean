import Lifecycle.Proofs.Acts

/-! What happened stays in the journal, and whoever was told something or gave up stays so. Only the
holder of the gate publishes and records. -/

namespace Lifecycle

def Progress.isAnswered : Progress → Prop
  | .answered _ => True
  | _ => False

def Hand.givesUp : Hand → Bool
  | .move v => v.givesUp
  | .left _ .giveUp => true
  | _ => false

namespace Machine

/-- One machine may have become the other while notes as `adds` says were added and pending calls
ended as `ends` says. -/
structure Later (adds : Note → Prop) (ends : Progress → Prop) (m m' : Machine) : Prop where
  journal : ∃ news, m'.journal = m.journal ++ news ∧ ∀ n ∈ news, adds n
  each : ∀ (call : Nat) (p : Progress), m.calls[call]? = some p →
    m'.calls[call]? = some p ∨ p = .pending ∧ ∃ q, ends q ∧ m'.calls[call]? = some q
  new : ∀ (call : Nat) (q : Progress), m.calls[call]? = none → m'.calls[call]? = some q →
    q = .pending ∨ ends q

/-- As callers see it: nobody publishes or records anything, and no caller gives up. -/
abbrev LaterQuietly : Machine → Machine → Prop :=
  Later (fun n => n.contributor? = none) Progress.isAnswered

/-- A note that says nothing published or recorded, or that of the holder of the gate. -/
def byHolder (m : Machine) (n : Note) : Prop :=
  ∀ call, n.contributor? = some call → m.gate.ticket?.map (·.call) = some call

section own

variable {m : Machine} {t : Ticket} {stage : Stage} {begun news : List Note} {r : Result}
  {e : Event}

theorem Begins.silent {run : Run} (h : Begins m t stage begun run) :
    ∀ n ∈ begun, n.contributor? = none := by
  intro n mem
  obtain ⟨_, _, rfl⟩ := h.notes n mem
  rfl

theorem Publishes.own {status : Status} (h : Publishes m t stage status news r e) :
    ∀ n ∈ news, n.contributor? = none ∨ n.contributor? = some t.call := by
  intro n mem
  rcases h.notes n mem with ⟨_, _, rfl⟩ | ⟨_, rfl⟩ | ⟨_, _, rfl⟩
  · exact .inl rfl
  · exact .inl rfl
  · exact .inr rfl

theorem Records.own {ledger ledger' : Ledger} {telemetry telemetry' : Telemetry} {call : Nat}
    {ending : Ending} (h : Records ledger telemetry call r e ledger' telemetry' news ending) :
    ∀ n ∈ news, n.contributor? = none ∨ n.contributor? = some call := by
  cases h <;> simp [Note.contributor?]

end own

namespace Later

variable {adds adds' : Note → Prop} {ends ends' : Progress → Prop} {m m' m'' : Machine} {t : Ticket}
  {hand hand' : Hand}

theorem trans (h : Later adds ends m m') (h' : Later adds ends m' m'') : Later adds ends m m'' where
  journal := by
    obtain ⟨news, same, all⟩ := h.journal
    obtain ⟨news', same', all'⟩ := h'.journal
    exact ⟨news ++ news', by rw [same', same, List.append_assoc],
      List.forall_mem_append.2 ⟨all, all'⟩⟩
  each call p given := by
    rcases h.each call p given with given' | ⟨waits, q, ended, given'⟩
    · exact h'.each call p given'
    · refine .inr ⟨waits, ?_⟩
      rcases h'.each call q given' with given'' | ⟨-, q', ended', given''⟩
      · exact ⟨q, ended, given''⟩
      · exact ⟨q', ended', given''⟩
  new call q none given := by
    cases between : m'.calls[call]? with
    | none => exact h'.new call q between given
    | some p =>
      rcases h'.each call p between with same | ⟨-, q', ended, same⟩
      · cases given.symm.trans same
        exact h.new call _ none between
      · cases given.symm.trans same
        exact .inr ended

theorem mono (h : Later adds ends m m') (more : ∀ n, adds n → adds' n)
    (also : ∀ p, ends p → ends' p) : Later adds' ends' m m' where
  journal := by
    obtain ⟨news, same, all⟩ := h.journal
    exact ⟨news, same, fun n mem => more n (all n mem)⟩
  each call p given := by
    refine (h.each call p given).imp_right ?_
    rintro ⟨waits, q, ended, given'⟩
    exact ⟨waits, q, also q ended, given'⟩
  new call q none given := (h.new call q none given).imp_right (also q)

theorem of_calls {news : List Note} (journal : m'.journal = m.journal ++ news)
    (all : ∀ n ∈ news, adds n) (calls : m'.calls = m.calls) : Later adds ends m m' where
  journal := ⟨news, journal, all⟩
  each call p given := .inl (by rw [calls, given])
  new call q none given := by
    rw [calls, none] at given
    cases given

theorem of_same (journal : m'.journal = m.journal) (calls : m'.calls = m.calls) :
    Later adds ends m m' :=
  of_calls (journal.trans (List.append_nil _).symm) (by simp) calls

theorem refl (m : Machine) : Later adds ends m m := of_same rfl rfl

theorem of_told {tells : Nat → Answer → Prop} (told : Told tells m.calls m'.calls)
    (journal : m'.journal = m.journal) : LaterQuietly m m' where
  journal := ⟨[], journal.trans (List.append_nil _).symm, by simp⟩
  each call p given := by
    rcases told.each call with same | ⟨waited, a, -, answered⟩
    · exact .inl (same.trans given)
    · exact .inr ⟨Option.some.inj (given.symm.trans waited), .answered a, trivial, answered⟩
  new call q none given := by
    have less := (List.getElem?_eq_some_iff.1 given).1
    rw [told.length] at less
    exact absurd less (Nat.not_lt.2 (List.getElem?_eq_none_iff.1 none))

theorem settled (h : Later adds ends m m') {call : Nat} {p : Progress}
    (given : m.calls[call]? = some p) (settled : p ≠ .pending) : m'.calls[call]? = some p :=
  (h.each call p given).resolve_right fun waits => settled waits.1

theorem abandoned (h : Later adds Progress.isAnswered m m') {call : Nat}
    (gave : m'.calls[call]? = some .abandoned) : m.calls[call]? = some .abandoned := by
  cases before : m.calls[call]? with
  | none => exact ((h.new call _ before gave).elim nofun nofun)
  | some p =>
    rcases h.each call p before with same | ⟨-, q, ended, same⟩
    · exact congrArg some (Option.some.inj (same.symm.trans gave))
    · cases gave.symm.trans same
      cases ended

theorem answer (m : Machine) (call : Nat) (a : Answer) : LaterQuietly m (m.answer call a) := by
  obtain ⟨calls, same, -, told⟩ := m.answer_eq call a
  rw [same]
  exact of_told told rfl

theorem log (m : Machine) (records : List LogRecord) : LaterQuietly m (m.log records) :=
  of_calls rfl (by simp [Note.contributor?]) rfl

theorem passOn (inside : m.gate.ticket? = some t) : LaterQuietly m m.passOn := by
  cases line : m.gate.waiting with
  | nil =>
    rw [passOn_of_nil inside line]
    exact of_calls rfl (by simp [Note.contributor?]) rfl
  | cons u us =>
    rw [passOn_of_cons inside line]
    exact of_calls rfl (by simp [Note.contributor?]) rfl

theorem closes {command : Command} {e : Ending} (closes : Closes t command m e m') :
    LaterQuietly m m' := by
  cases closes with
  | told | panicked => exact answer ..
  | reported | unheard => exact of_same rfl rfl
  | replied => exact (answer ..).trans ((log ..).trans (of_same rfl rfl))
  | buried =>
    obtain ⟨calls, same, -, -, told⟩ := m.bury_eq t.call
    rw [same]
    exact of_told told rfl

theorem quietly (h : Later (fun n => n.contributor? = none) ends m' m'') :
    Later m.byHolder ends m' m'' := by
  refine h.mono (fun n none call some => ?_) fun _ ended => ended
  rw [none] at some
  cases some

theorem answering (h : LaterQuietly m m') (answers : ∀ p, p.isAnswered → ends p) :
    Later (fun n => n.contributor? = none) ends m m' := h.mono (fun _ none => none) answers

theorem openCall (m : Machine) (t : Ticket) : LaterQuietly m (m.openCall t) where
  journal := ⟨[.opened t], rfl, by simp [Note.contributor?]⟩
  each call p given := by
    have inRange := (List.getElem?_eq_some_iff.1 given).1
    exact .inl ((List.getElem?_append_left inRange).trans given)
  new call q none given := by
    have added : (m.calls ++ [.pending])[call]? = some q := given
    rw [List.getElem?_append_right (List.getElem?_eq_none_iff.1 none)] at added
    exact .inl (List.mem_singleton.1 (List.mem_of_getElem? added))

theorem setAbandoned {call : Nat} (waits : m.isPending call) (gives : ends .abandoned)
    (calls : m'.calls = m.calls.set call .abandoned) (journal : m'.journal = m.journal) :
    Later adds ends m m' := by
  refine ⟨⟨[], journal.trans (List.append_nil _).symm, by simp⟩, fun call' p given => ?_,
    fun call' q none given => ?_⟩
  · rw [calls]
    by_cases same : call = call'
    · subst same
      rw [isPending_iff, given] at waits
      have inRange := (List.getElem?_eq_some_iff.1 given).1
      exact .inr ⟨Option.some.inj waits, _, gives, List.getElem?_set_self inRange⟩
    · exact .inl ((List.getElem?_set_ne same).trans given)
  · rw [calls] at given
    have inRange := (List.getElem?_eq_some_iff.1 given).1
    rw [List.length_set] at inRange
    exact absurd inRange (Nat.not_lt.2 (List.getElem?_eq_none_iff.1 none))

theorem of_bystanders (bystanders : hand.isBystanders) (act : Act m hand hand' m') :
    LaterQuietly m m' := by
  cases act with
  | enters | takes => exact of_calls rfl (by simp [Note.contributor?]) rfl
  | places _ places =>
    cases places with
    | refused => exact answer ..
    | rouses | queues => exact of_calls rfl (by simp [Note.contributor?]) rfl
  | opens | asks => exact openCall ..
  | putsOff | waits | rests | lines | comes | releases | rouses => exact of_same rfl rfl
  | _ => cases bystanders

theorem act (answers : ∀ p, p.isAnswered → ends p) (gives : hand.givesUp → ends .abandoned)
    (act : Act m hand hand' m') : Later m.byHolder ends m m' := by
  have quietly {m' m'' : Machine} (h : LaterQuietly m' m'') : Later m.byHolder ends m' m'' :=
    (h.answering answers).quietly
  have own {t : Ticket} {stage : Stage} (held : m.gate.holder = some ⟨t, stage⟩) {n : Note}
      (of : n.contributor? = none ∨ n.contributor? = some t.call) : m.byHolder n := by
    intro call some
    rcases of with none | of
    · rw [none] at some
      cases some
    · rw [Gate.ticket?_eq_some.2 ⟨stage, held⟩, ← some, of]
      rfl
  by_cases bystanders : hand.isBystanders
  · exact quietly (of_bystanders bystanders act)
  cases act with
  | runs needs held begins | blocks needs held begins =>
    exact of_calls rfl (fun n mem => own held (.inl (begins.silent n mem))) rfl
  | publishes held publishes => exact of_calls rfl (fun n mem => own held (publishes.own n mem)) rfl
  | leaves stage' permits held publishes records =>
    refine .trans ?_ (quietly (passOn rfl))
    refine of_calls rfl (fun n mem => own held ?_) rfl
    rcases List.mem_append.1 mem with mem | mem
    · exact publishes.own n mem
    · exact records.own n mem
  | closes closes => exact quietly (.closes closes)
  | arranges held work =>
    refine .trans ?_ (quietly (passOn rfl))
    refine of_calls rfl (fun n mem => own held ?_) rfl
    simp only [List.mem_cons, List.not_mem_nil, or_false] at mem
    rcases mem with rfl | rfl
    · exact .inl rfl
    · exact .inr rfl
  | forces => exact quietly (answer ..)
  | @reports call command payload ready deferred =>
    have picked : LaterQuietly m { m with ready, deferred } := of_same rfl rfl
    exact quietly (picked.trans ((log ..).trans (answer ..)))
  | handsOn _ _ inside => exact quietly (passOn inside)
  | givesUp waits => exact setAbandoned waits (gives rfl) rfl rfl
  | withdraws _ waits => exact setAbandoned waits (gives rfl) rfl rfl
  | refusedFrame => exact quietly (log ..)
  | putsOff again => cases again <;> exact absurd rfl bystanders
  | enters | waits | rests | takes | lines | comes => exact absurd rfl bystanders
  | places asks => rcases asks with rfl | ⟨rfl, -⟩ <;> exact absurd rfl bystanders
  | opens | asks => exact quietly (openCall ..)
  | _ => exact of_same rfl rfl

end Later

variable {m m' : Machine} {hand hand' : Hand} {t : Ticket} {ends : Progress → Prop}

theorem Acts.later (acts : Acts hand m m') (bystanders : hand.isBystanders) : LaterQuietly m m' :=
  acts.relates Later.trans Act.isBystanders Later.of_bystanders bystanders

theorem Act.leaves_or_inside (act : Act m hand hand' m') (busy : hand' ≠ .empty) :
    (∃ t why, hand' = .left t why) ∨ m'.gate.ticket? = m.gate.ticket? := by
  cases act with
  | leaves | arranges | handsOn => exact .inl ⟨_, _, rfl⟩
  | _ => first | exact .inr rfl | exact absurd rfl busy

theorem Act.stays_put (act : Act m hand hand' m') (busy : hand ≠ .empty)
    (stays : hand.givesUp = false) : hand'.givesUp = false := by
  cases act <;> first | rfl | exact absurd rfl busy | cases stays

theorem Acts.after_leaving {why : Leave} (acts : Acts (.left t why) m m')
    (answers : ∀ p, p.isAnswered → ends p) (gives : (Hand.left t why).givesUp → ends .abandoned) :
    Later (fun n => n.contributor? = none) ends m m' := by
  cases acts with
  | last act =>
    cases act with
    | closes closes => exact (Later.closes closes).answering answers
    | forces => exact (Later.answer ..).answering answers
    | givesUp waits => exact .setAbandoned waits (gives rfl) rfl rfl
    | places asks => rcases asks with asks | ⟨asks, -⟩ <;> cases asks
  | more act busy => cases act <;> exact absurd rfl busy

theorem ends_of_givesUp (gives : ends .abandoned ∨ hand ≠ .empty ∧ hand.givesUp = false)
    (givesUp : hand.givesUp) : ends .abandoned :=
  gives.resolve_right fun stays => Bool.false_ne_true (stays.2.symm.trans givesUp)

/-- Only the holder of the gate publishes and records: after it has left nothing more is. -/
theorem Acts.grows (acts : Acts hand m m') (answers : ∀ p, p.isAnswered → ends p)
    (gives : ends .abandoned ∨ hand ≠ .empty ∧ hand.givesUp = false) :
    Later m.byHolder ends m m' := by
  induction acts with
  | last act => exact .act answers (ends_of_givesUp gives) act
  | @more hand hand' m m' m'' act busy rest ih =>
    have first := Later.act answers (ends_of_givesUp gives) act
    have gives' : ends .abandoned ∨ hand' ≠ .empty ∧ hand'.givesUp = false :=
      gives.imp_right fun ⟨given, stays⟩ => ⟨busy, act.stays_put given stays⟩
    rcases act.leaves_or_inside busy with ⟨t, why, rfl⟩ | inside
    · exact first.trans (rest.after_leaving answers (ends_of_givesUp gives')).quietly
    · refine first.trans ((ih gives').mono (fun n own => ?_) fun _ ended => ended)
      rwa [byHolder, inside] at own

namespace Later

theorem proceeds (p : Proceeds m m') : Later m.byHolder Progress.isAnswered m m' :=
  (p.acts 0).grows (fun _ told => told) (.inr ⟨nofun, rfl⟩)

theorem step (m : Machine) : Later m.byHolder Progress.isAnswered m m.step :=
  (acts_step m).grows (fun _ told => told) (.inr ⟨nofun, rfl⟩)

theorem take (m : Machine) {turn : Turn} (other : ∀ share, turn ≠ .proceed share) :
    LaterQuietly m (m.take turn) := by
  cases turn with
  | proceed share => exact absurd rfl (other share)
  | report call command payload => exact (log ..).trans (answer ..)
  | arrive | collect | place =>
    refine (acts_take m ?_).later rfl
    nofun

theorem submit (m : Machine) {v : Move} (stays : v.givesUp = false) :
    LaterQuietly m (m.submit v) :=
  (acts_submit (timely_of_stays stays)).later (Hand.isBystanders_move stays)

theorem givesUp {call : Nat} (g : GivesUp m call m') :
    Later (fun n => n.contributor? = none) (fun _ => True) m m' := by
  cases g with
  | settled => exact refl m
  | handsOn waits inside =>
    refine ((passOn inside).answering fun _ _ => trivial).trans (setAbandoned ?_ trivial rfl rfl)
    rwa [isPending, calls_passOn]
  | withdraws waits => exact setAbandoned waits trivial rfl rfl

end Later

theorem Reaches.later (h : Reaches m m') : Later (fun _ => True) (fun _ => True) m m' := by
  induction h with
  | refl => exact .refl m
  | tail _ change ih =>
    have next : Later _ (fun _ => True) _ _ := change.acts.grows (fun _ _ => trivial) (.inl trivial)
    exact ih.trans (next.mono (fun _ _ => trivial) fun _ _ => trivial)

theorem Reaches.subset {m m' : Machine} (h : Reaches m m') : m.journal ⊆ m'.journal := by
  obtain ⟨news, same, -⟩ := h.later.journal
  exact same ▸ List.subset_append_left ..

theorem reaches_step_settle {m : Machine} (busy : m.isQuiet = false) : Reaches m.step m.settle := by
  have less := work_step busy
  obtain ⟨n, same⟩ : ∃ n, m.work = n + 1 := ⟨m.work - 1, by omega⟩
  rw [settle, same, steps, busy]
  exact reaches_steps n m.step

end Machine

end Lifecycle
