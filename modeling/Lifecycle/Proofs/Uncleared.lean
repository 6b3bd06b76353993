import Lifecycle.Proofs.Account
import Mathlib.Data.List.DropRight

/-! Records that nobody clears. A history and a buffering sink get one entry after another, and
although each makes room in its own way, both hold the latest of all that they were ever given, as
many as their capacity allows. -/

namespace Lifecycle

section latest

variable {α β : Type}

theorem holds_foldl {put : α → β → α} (P : α → List β → Prop)
    (step : ∀ a xs x, P a xs → P (put a x) (xs ++ [x])) {a : α} {xs : List β} (holds : P a xs)
    (ys : List β) : P (ys.foldl put a) (xs ++ ys) := by
  induction ys generalizing a xs with
  | nil => rwa [List.append_nil]
  | cons y ys ih =>
    rw [List.append_cons]
    exact ih (step a xs y holds)

theorem length_rtake (xs : List α) (n : Nat) : (xs.rtake n).length = min n xs.length := by
  rw [List.rtake, List.length_drop]
  omega

theorem rtake_snoc (xs : List α) (x : α) (n : Nat) : (xs ++ [x]).rtake (n + 1) =
    (if n + 1 ≤ xs.length then (xs.rtake (n + 1)).tail else xs.rtake (n + 1)) ++ [x] := by
  rw [List.rtake_concat_succ]
  refine congrArg (· ++ [x]) ?_
  split
  · next full =>
    rw [List.rtake, List.rtake, List.tail_drop]
    congr 1
    omega
  · next room =>
    rw [List.rtake, List.rtake]
    congr 1
    omega

end latest

/-- A bounded record holds the latest entries, at least one, of all that it was given. -/
structure Holds {α : Type} (n capacity : Nat) (entries xs : List α) : Prop where
  bound : capacity = max n 1
  latest : entries = xs.rtake (max n 1)

theorem History.holds_append {n : Nat} (h : History) (xs : List Result) (r : Result)
    (holds : Holds n h.capacity h.entries xs) :
    Holds n (h.append r).capacity (h.append r).entries (xs ++ [r]) where
  bound := holds.bound
  latest := by
    obtain ⟨k, same⟩ : ∃ k, max n 1 = k + 1 := ⟨max n 1 - 1, by omega⟩
    have length := length_rtake xs (k + 1)
    have some : xs.length = 0 ∨ xs.rtake (k + 1) ≠ [] := by
      rw [Ne, ← List.length_eq_zero_iff, length]
      omega
    rw [same, rtake_snoc, append, holds.latest, holds.bound, same]
    simp only [List.length_append, List.length_singleton, length]
    split <;> split
    · exact List.tail_append_of_ne_nil (some.resolve_left (by omega))
    · omega
    · omega
    · rfl

theorem EventBuffer.holds_push {n : Nat} (b : EventBuffer) (xs : List Event) (e : Event)
    (holds : Holds n b.capacity b.events xs) :
    Holds n (b.push e).capacity (b.push e).events (xs ++ [e]) where
  bound := b.capacity_push e ▸ holds.bound
  latest := by
    obtain ⟨k, same⟩ : ∃ k, max n 1 = k + 1 := ⟨max n 1 - 1, by omega⟩
    have length := length_rtake xs (k + 1)
    rw [same, rtake_snoc, push, holds.latest, holds.bound, same, length]
    split <;> split
    · rfl
    · omega
    · omega
    · rfl

theorem holds_nil {α : Type} (n : Nat) : Holds n (max n 1) ([] : List α) [] :=
  ⟨rfl, by simp [List.rtake]⟩

namespace Machine

inductive Adds (m : Machine) : Machine → Prop
  | turn : Adds m m.step
  | move (v : Move) (timely : m.Timely v) : Adds m (m.submit v)
  | refusedFrame : Adds m (m.log [.undecodable])

def Uncleared (d : Dispatcher) (capacity : Nat) (m : Machine) : Prop :=
  Relation.ReflTransGen Adds (.start d capacity) m

/-- What a change puts into the records is what the journal says about it. -/
def Stores (m m' : Machine) : Prop :=
  ∃ news, m'.journal = m.journal ++ news ∧
    m'.dispatcher.ledger.history =
      (news.filterMap Note.appended?).foldl .append m.dispatcher.ledger.history ∧
    m'.dispatcher.telemetry.sink =
      (news.filterMap Note.emitted?).foldl (fun s e => (s.emit e).1) m.dispatcher.telemetry.sink

variable {m m' m'' : Machine} {t : Ticket}

namespace Stores

theorem silently {news : List Note} (journal : m'.journal = m.journal ++ news)
    (silent : ∀ n ∈ news, n.isSilent) (ledger : m'.dispatcher.ledger = m.dispatcher.ledger)
    (telemetry : m'.dispatcher.telemetry = m.dispatcher.telemetry) : Stores m m' := by
  have appended : news.filterMap Note.appended? = [] :=
    List.filterMap_eq_nil_iff.2 fun n mem => Note.appended?_of_isSilent (silent n mem)
  have emitted : news.filterMap Note.emitted? = [] :=
    List.filterMap_eq_nil_iff.2 fun n mem => Note.emitted?_of_isSilent (silent n mem)
  exact ⟨news, journal, by rw [appended, ledger]; rfl, by rw [emitted, telemetry]; rfl⟩

theorem same (journal : m'.journal = m.journal) (dispatcher : m'.dispatcher = m.dispatcher) :
    Stores m m' :=
  silently (journal.trans (List.append_nil _).symm) (by simp) (by rw [dispatcher])
    (by rw [dispatcher])

theorem refl (m : Machine) : Stores m m := same rfl rfl

theorem trans (h : Stores m m') (h' : Stores m' m'') : Stores m m'' := by
  obtain ⟨news, journal, history, sink⟩ := h
  obtain ⟨more, journal', history', sink'⟩ := h'
  refine ⟨news ++ more, by rw [journal', journal, List.append_assoc], ?_, ?_⟩
  · rw [history', history, List.filterMap_append, List.foldl_append]
  · rw [sink', sink, List.filterMap_append, List.foldl_append]

theorem answer (m : Machine) (call : Nat) (a : Answer) : Stores m (m.answer call a) := by
  obtain ⟨calls, equal, -⟩ := m.answer_eq call a
  rw [equal]
  exact same rfl rfl

theorem log (m : Machine) (records : List LogRecord) : Stores m (m.log records) :=
  silently rfl (by simp [Note.isSilent]) rfl rfl

theorem passOn (inside : m.gate.ticket? = some t) : Stores m m.passOn := by
  cases line : m.gate.waiting with
  | nil =>
    rw [passOn_of_nil inside line]
    exact silently rfl (by simp [Note.isSilent]) rfl rfl
  | cons u us =>
    rw [passOn_of_cons inside line]
    exact silently rfl (by simp [Note.isSilent]) rfl rfl

theorem closes {command : Command} {e : Ending} (closes : Closes t command m e m') :
    Stores m m' := by
  cases closes with
  | told | panicked => exact answer ..
  | reported => exact same rfl rfl
  | unheard => exact refl m
  | replied => exact (answer ..).trans ((log ..).trans (same rfl rfl))
  | buried =>
    obtain ⟨calls, equal, -⟩ := m.bury_eq t.call
    rw [equal]
    exact same rfl rfl

theorem records {ledger : Ledger} {telemetry : Telemetry} {r : Result} {e : Event}
    {recorded : List Note} {ending : Ending} {call : Nat}
    (records : Records m.dispatcher.ledger m.dispatcher.telemetry call r e ledger telemetry
      recorded ending) (journal : m'.journal = m.journal ++ recorded)
    (same : m'.dispatcher.ledger = ledger ∧ m'.dispatcher.telemetry = telemetry) :
    Stores m m' := by
  refine ⟨recorded, journal, ?_, ?_⟩
  · rw [same.1]
    cases records with
    | all => simp [List.filterMap_cons, Function.comp_def, Note.appended?]
    | noResult | noEvent => rfl
  · rw [same.2]
    cases records with
    | all => simp [List.filterMap_cons, Function.comp_def, Note.emitted?]
    | noResult | noEvent => rfl

theorem places {p : Post} (places : Places m p m') : Stores m m' := by
  cases places with
  | refused => exact answer ..
  | rouses | queues => exact silently rfl (by simp [Note.isSilent]) rfl rfl

theorem act {hand hand' : Hand} (busy : hand ≠ .empty) (act : Act m hand hand' m') :
    Stores m m' := by
  cases act with
  | steps | makes | clearHistory | clearEvents | refusedFrame => exact absurd rfl busy
  | sleeps | stays | settled => exact refl m
  | @reports call command payload ready deferred =>
    have picked : Stores m { m with ready, deferred } := same rfl rfl
    exact picked.trans ((log ..).trans (answer ..))
  | places _ placed => exact places placed
  | runs needs held begins | blocks needs held begins =>
    exact silently rfl begins.unrecorded rfl rfl
  | publishes held publishes => exact silently rfl publishes.unrecorded rfl rfl
  | @leaves _ t stage status news r e ledger telemetry recorded ending stage' permits held publishes
      kept =>
    have before : Stores m (m.within t stage' m.dispatcher permits news) :=
      silently rfl publishes.unrecorded rfl rfl
    have stored : Stores (m.within t stage' m.dispatcher permits news) (m.within t stage'
        { m.dispatcher with ledger, telemetry, status } permits (news ++ recorded)) :=
      records kept (List.append_assoc ..).symm ⟨rfl, rfl⟩
    exact before.trans (stored.trans (passOn rfl))
  | closes closed => exact closes closed
  | arranges =>
    refine .trans ?_ (passOn rfl)
    exact silently rfl (by simp [Note.isSilent]) rfl rfl
  | forces => exact answer ..
  | handsOn _ _ inside => exact passOn inside
  | enters | takes | opens | asks => exact silently rfl (by simp [Note.isSilent]) rfl rfl
  | picks | putsOff | waits | rests | lines | comes | releases | rouses | givesUp | withdraws =>
    exact same rfl rfl

theorem of_adds (c : Adds m m') : Stores m m' := by
  cases c with
  | turn => exact (acts_step m).relates trans (fun _ _ busy => busy) act nofun
  | move v timely => exact (acts_submit timely).relates trans (fun _ _ busy => busy) act nofun
  | refusedFrame => exact log ..

end Stores

variable {d : Dispatcher} {capacity n : Nat}

theorem Adds.change (c : Adds m m') : Change m m' := by
  cases c with
  | turn => exact .turn
  | move v timely => exact .move v timely
  | refusedFrame => exact .refusedFrame

namespace Uncleared

variable (h : Uncleared d capacity m)
include h

theorem reachable : Reachable d capacity m := by
  induction h with
  | refl => exact .refl
  | tail _ adds ih => exact ih.tail adds.change

theorem stores : Stores (.start d capacity) m := by
  induction h with
  | refl => exact .refl _
  | tail _ adds ih => exact ih.trans (.of_adds adds)

theorem history_holds (empty : d.ledger.history = .withCapacity n) :
    Holds n m.dispatcher.ledger.history.capacity m.dispatcher.ledger.history.entries
      m.appended := by
  obtain ⟨news, journal, history, -⟩ := h.stores
  have all : m.appended = news.filterMap Note.appended? := by rw [appended, journal]; rfl
  rw [all, history, show (start d capacity).dispatcher.ledger.history = _ from empty]
  have none : Holds n (History.withCapacity n).capacity (History.withCapacity n).entries [] :=
    holds_nil n
  exact holds_foldl (fun (h : History) xs => Holds n h.capacity h.entries xs) History.holds_append
    none _

theorem sink_holds (empty : d.telemetry.sink = .buffer (.withCapacity n)) :
    ∃ b, m.dispatcher.telemetry.sink = .buffer b ∧ Holds n b.capacity b.events m.emitted := by
  obtain ⟨news, journal, -, sink⟩ := h.stores
  have all : m.emitted = news.filterMap Note.emitted? := by rw [emitted, journal]; rfl
  rw [all, sink, show (start d capacity).dispatcher.telemetry.sink = _ from empty]
  have none :
      Holds n (EventBuffer.withCapacity n).capacity (EventBuffer.withCapacity n).events [] :=
    holds_nil n
  refine holds_foldl (fun (s : Sink) xs => ∃ b, s = .buffer b ∧ Holds n b.capacity b.events xs) ?_
    ⟨_, rfl, none⟩ _
  rintro _ xs e ⟨b, rfl, holds⟩
  exact ⟨b.push e, rfl, b.holds_push xs e holds⟩

omit h in
theorem of_run (d : Dispatcher) (capacity : Nat) (moves : List Move) :
    Uncleared d capacity ((start d capacity).run moves) := by
  induction moves using List.reverseRecOn with
  | nil => exact .refl
  | append_singleton moves v ih =>
    rw [run, List.foldl_append]
    have moved := ih.tail (.move v (timely_of_quiet (isQuiet_run ..) v))
    exact steps_keep (fun _ h => h.tail .turn) _ moved

end Uncleared

end Machine

end Lifecycle
