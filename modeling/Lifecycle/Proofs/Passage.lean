import Lifecycle.Channel
import Mathlib.Data.List.Nodup

/-! The way of a request through the channel. A sender puts its request into the queue at once, or
waits in line for room, is given room and does so then; the worker takes the requests one after
another. What a change can do to all this is said once, and what is true of every channel at every
moment follows from that alone. -/

namespace Lifecycle

/-- A channel with its past: the senders that were given room and have not come yet, those that wait
for room, the requests in the queue, and the calls whose requests ever entered it or were ever taken
out of it. -/
structure Passage where
  capacity : Nat
  calls : Nat
  given : List Post
  waiting : List Post
  queue : List Post
  worker : WorkerState
  entered : List Nat
  taken : List Nat

namespace Passage

def line (x : Passage) : List Nat := (x.given ++ x.waiting).map Post.call

/-- What can become of a channel with one change. -/
inductive Passes (x : Passage) : Passage → Prop
  | still (calls : Nat) (more : x.calls ≤ calls) : Passes x { x with calls }
  | lines {p : Post} (new : p.call = x.calls) (alive : x.worker ≠ .gone)
    (full : x.capacity ≤ x.queue.length + x.given.length) :
    Passes x { x with calls := x.calls + 1, waiting := x.waiting ++ [p] }
  | enters {p : Post} (new : p.call = x.calls) (alive : x.worker ≠ .gone)
    (room : x.queue.length + x.given.length < x.capacity) :
    Passes x { x with
      calls := x.calls + 1
      queue := x.queue ++ [p]
      worker := .busy
      entered := x.entered ++ [p.call] }
  | places {p : Post} {given : List Post} (next : x.given = p :: given)
    (alive : x.worker ≠ .gone) :
    Passes x { x with
      given
      queue := x.queue ++ [p]
      worker := .busy
      entered := x.entered ++ [p.call] }
  | refuses {p : Post} {given : List Post} (next : x.given = p :: given)
    (gone : x.worker = .gone) : Passes x { x with given }
  | takes {p : Post} {queue : List Post} (next : x.queue = p :: queue) :
    Passes x { x with
      queue
      given := x.given ++ x.waiting.head?.toList
      waiting := x.waiting.tail
      taken := x.taken ++ [p.call] }
  | rests (empty : x.queue = []) (alive : x.worker ≠ .gone) : Passes x { x with worker := .idle }
  | dies : Passes x { x with queue := [], waiting := [], worker := .gone }
  | withdraws (call : Nat) :
    Passes x { x with waiting := x.waiting.filter fun p => !(p.call == call) }

structure Sound (x : Passage) : Prop where
  room : x.queue.length + x.given.length ≤ x.capacity
  full : x.waiting ≠ [] → x.capacity ≤ x.queue.length + x.given.length
  flow : x.worker ≠ .gone → x.entered = x.taken ++ x.queue.map Post.call
  gone : x.worker = .gone → x.queue = [] ∧ x.waiting = []
  taken : x.taken <+: x.entered
  ordered : x.line.Pairwise (· < ·)
  once : (x.entered ++ x.line).Nodup
  numbered : ∀ c ∈ x.entered ++ x.line, c < x.calls

variable {x y z : Passage}

theorem line_of_takes (x : Passage) :
    (x.given ++ x.waiting.head?.toList ++ x.waiting.tail).map Post.call = x.line := by
  unfold line
  cases x.waiting <;> simp

namespace Sound

theorem room_passes (h : x.Sound) (p : x.Passes y) :
    y.queue.length + y.given.length ≤ y.capacity ∧
      (y.waiting ≠ [] → y.capacity ≤ y.queue.length + y.given.length) := by
  have room := h.room
  cases p with
  | still => exact ⟨h.room, h.full⟩
  | lines new alive full => exact ⟨h.room, fun _ => full⟩
  | enters new alive room =>
    refine ⟨?_, fun some => absurd (h.full some) (Nat.not_le.2 room)⟩
    simp only [List.length_append, List.length_singleton]
    omega
  | places next alive =>
    have full := h.full
    simp only [next, List.length_append, List.length_cons, List.length_nil] at room full ⊢
    exact ⟨by omega, fun some => by have := full some; omega⟩
  | refuses next gone =>
    simp only [next, List.length_cons] at room
    exact ⟨Nat.le_of_succ_le room, fun some => absurd (h.gone gone).2 some⟩
  | takes next =>
    have full := h.full
    simp only [next, List.length_cons] at room full ⊢
    cases waiting : x.waiting with
    | nil =>
      simp only [List.head?_nil, Option.toList_none, List.append_nil]
      exact ⟨by omega, fun some => absurd rfl some⟩
    | cons w ws =>
      have full := full (by simp [waiting])
      simp only [List.head?_cons, Option.toList_some, List.length_append, List.length_singleton]
      exact ⟨by omega, fun _ => by omega⟩
  | rests => exact ⟨h.room, h.full⟩
  | dies => exact ⟨by simp only [List.length_nil]; omega, nofun⟩
  | withdraws call => exact ⟨h.room, fun some => h.full fun none => some (by simp [none])⟩

theorem flow_passes (h : x.Sound) (p : x.Passes y) :
    (y.worker ≠ .gone → y.entered = y.taken ++ y.queue.map Post.call) ∧
      (y.worker = .gone → y.queue = [] ∧ y.waiting = []) ∧ y.taken <+: y.entered := by
  cases p with
  | still => exact ⟨h.flow, h.gone, h.taken⟩
  | lines new alive => exact ⟨h.flow, fun gone => absurd gone alive, h.taken⟩
  | enters new alive =>
    exact ⟨fun _ => by simp [h.flow alive], nofun, h.taken.trans (List.prefix_append ..)⟩
  | places next alive =>
    exact ⟨fun _ => by simp [h.flow alive], nofun, h.taken.trans (List.prefix_append ..)⟩
  | refuses => exact ⟨h.flow, h.gone, h.taken⟩
  | @takes p queue next =>
    have alive : x.worker ≠ .gone := fun gone => by simp [(h.gone gone).1] at next
    have flow : x.entered = x.taken ++ [p.call] ++ queue.map Post.call := by
      simp [h.flow alive, next]
    exact ⟨fun _ => flow, fun gone => absurd gone alive, _, flow.symm⟩
  | rests empty alive => exact ⟨fun _ => h.flow alive, nofun, h.taken⟩
  | dies => exact ⟨nofun, fun _ => ⟨rfl, rfl⟩, h.taken⟩
  | withdraws call =>
    exact ⟨h.flow, fun gone => ⟨(h.gone gone).1, by simp [(h.gone gone).2]⟩, h.taken⟩

theorem line_of_fewer (h : x.Sound) (calls : x.calls ≤ y.calls) {news : List Nat}
    (entered : y.entered = x.entered ++ news) (line : (news ++ y.line).Sublist x.line) :
    y.line.Pairwise (· < ·) ∧ (y.entered ++ y.line).Nodup ∧
      ∀ c ∈ y.entered ++ y.line, c < y.calls := by
  have fewer : (y.entered ++ y.line).Sublist (x.entered ++ x.line) := by
    rw [entered, List.append_assoc]
    exact (List.Sublist.refl _).append line
  refine ⟨h.ordered.sublist ((List.sublist_append_right ..).trans line), h.once.sublist fewer,
    fun c mem => ?_⟩
  exact Nat.lt_of_lt_of_le (h.numbered c (fewer.subset mem)) calls

theorem line_of_comes (h : x.Sound) {c : Nat} (new : c = x.calls) (calls : y.calls = x.calls + 1)
    (entered : y.entered = x.entered ++ [c] ∧ y.line = x.line ∨
      y.entered = x.entered ∧ y.line = x.line ++ [c]) :
    y.line.Pairwise (· < ·) ∧ (y.entered ++ y.line).Nodup ∧
      ∀ c ∈ y.entered ++ y.line, c < y.calls := by
  have all : (y.entered ++ y.line).Perm (c :: (x.entered ++ x.line)) := by
    rcases entered with ⟨entered, line⟩ | ⟨entered, line⟩
    · rw [entered, line, List.append_assoc]
      exact List.perm_middle
    · rw [entered, line, ← List.append_assoc]
      exact List.perm_append_singleton ..
  have fresh : c ∉ x.entered ++ x.line := fun mem =>
    absurd (h.numbered c mem) (new ▸ Nat.lt_irrefl _)
  refine ⟨?_, all.nodup_iff.2 (List.nodup_cons.2 ⟨fresh, h.once⟩), fun c' mem => ?_⟩
  · rcases entered with ⟨-, line⟩ | ⟨-, line⟩
    · exact line ▸ h.ordered
    · rw [line, List.pairwise_append]
      refine ⟨h.ordered, List.pairwise_singleton _ _, fun c' mem c'' same => ?_⟩
      rw [List.mem_singleton.1 same, new]
      exact h.numbered c' (List.mem_append_right _ mem)
  · rw [calls]
    rcases List.mem_cons.1 (all.mem_iff.1 mem) with rfl | mem
    · exact new ▸ Nat.lt_succ_self _
    · exact Nat.lt_succ_of_lt (h.numbered c' mem)

theorem line_passes (h : x.Sound) (p : x.Passes y) : y.line.Pairwise (· < ·) ∧
    (y.entered ++ y.line).Nodup ∧ ∀ c ∈ y.entered ++ y.line, c < y.calls := by
  have nothing : x.entered = x.entered ++ [] := (List.append_nil _).symm
  cases p with
  | still calls more => exact h.line_of_fewer more nothing (List.Sublist.refl _)
  | lines new => exact h.line_of_comes new rfl (.inr ⟨rfl, by simp [line]⟩)
  | enters new => exact h.line_of_comes new rfl (.inl ⟨rfl, rfl⟩)
  | places next => exact h.line_of_fewer (Nat.le_refl _) rfl (by simp [line, next])
  | refuses next => exact h.line_of_fewer (Nat.le_refl _) nothing (by simp [line, next])
  | takes =>
    refine h.line_of_fewer (Nat.le_refl _) nothing ?_
    rw [List.nil_append, line, line_of_takes]
  | rests => exact h.line_of_fewer (Nat.le_refl _) nothing (List.Sublist.refl _)
  | dies => exact h.line_of_fewer (Nat.le_refl _) nothing (by simp [line])
  | withdraws =>
    refine h.line_of_fewer (Nat.le_refl _) nothing ?_
    exact ((List.Sublist.refl _).append List.filter_sublist).map _

theorem passes (h : x.Sound) (p : x.Passes y) : y.Sound := by
  obtain ⟨room, full⟩ := h.room_passes p
  obtain ⟨flow, gone, taken⟩ := h.flow_passes p
  obtain ⟨ordered, once, numbered⟩ := h.line_passes p
  exact { room, full, flow, gone, taken, ordered, once, numbered }

end Sound

/-- One channel may have become the other. Whoever was in line and has entered since did so in the
order of the line, and otherwise only new senders have. Nothing goes through the channel any more
when its worker is dead. -/
structure Later (x y : Passage) : Prop where
  capacity : y.capacity = x.capacity
  calls : x.calls ≤ y.calls
  entered : ∃ since, y.entered = x.entered ++ since ∧
    (∀ c ∈ since ++ y.line, c ∈ x.line ∨ x.calls ≤ c) ∧
    ((since ++ y.line).filter (· ∈ x.line)).Sublist x.line
  taken : x.taken <+: y.taken
  gone : x.worker = .gone → y.worker = .gone ∧ y.entered = x.entered ∧ y.taken = x.taken

namespace Later

theorem refl (x : Passage) : Later x x where
  capacity := rfl
  calls := Nat.le_refl _
  entered := ⟨[], (List.append_nil _).symm, fun _ mem => .inl mem, List.filter_sublist⟩
  taken := List.prefix_refl _
  gone dead := ⟨dead, rfl, rfl⟩

theorem fewer (h : Later x y) (capacity : z.capacity = y.capacity) (calls : y.calls ≤ z.calls)
    {news : List Nat} (entered : z.entered = y.entered ++ news)
    (line : (news ++ z.line).Sublist y.line) (taken : y.taken <+: z.taken)
    (gone : y.worker = .gone → z.worker = .gone ∧ news = [] ∧ z.taken = y.taken) : Later x z where
  capacity := capacity.trans h.capacity
  calls := Nat.le_trans h.calls calls
  entered := by
    obtain ⟨since, same, from', ordered⟩ := h.entered
    have less : (since ++ news ++ z.line).Sublist (since ++ y.line) := by
      rw [List.append_assoc]
      exact (List.Sublist.refl _).append line
    refine ⟨since ++ news, by rw [entered, same, List.append_assoc], fun c mem => ?_, ?_⟩
    · exact from' c (less.subset mem)
    · exact (less.filter _).trans ordered
  taken := h.taken.trans taken
  gone dead := by
    obtain ⟨dead, entered', taken'⟩ := h.gone dead
    obtain ⟨dead, rfl, same⟩ := gone dead
    exact ⟨dead, by rw [entered, List.append_nil, entered'], same.trans taken'⟩

theorem comes (h : Later x y) (sound : x.Sound) {c : Nat} (new : c = y.calls)
    (capacity : z.capacity = y.capacity) (calls : z.calls = y.calls + 1)
    (entered : z.entered = y.entered ++ [c] ∧ z.line = y.line ∨
      z.entered = y.entered ∧ z.line = y.line ++ [c])
    (taken : z.taken = y.taken) (alive : y.worker ≠ .gone) : Later x z where
  capacity := capacity.trans h.capacity
  calls := calls ▸ Nat.le_succ_of_le h.calls
  entered := by
    have unknown : c ∉ x.line := fun mem => by
      have less := sound.numbered c (List.mem_append_right _ mem)
      have calls := h.calls
      omega
    have late : x.calls ≤ c := new ▸ h.calls
    obtain ⟨since, same, from', ordered⟩ := h.entered
    rcases entered with ⟨entered, line⟩ | ⟨entered, line⟩
    · refine ⟨since ++ [c], by rw [entered, same, List.append_assoc], ?_, ?_⟩
      · rw [line]
        simp only [List.mem_append, List.mem_singleton] at from' ⊢
        rintro c' ((mem | rfl) | mem)
        · exact from' c' (.inl mem)
        · exact .inr late
        · exact from' c' (.inr mem)
      · rw [line]
        simpa [List.filter_append, unknown] using ordered
    · refine ⟨since, entered.trans same, ?_, ?_⟩
      · rw [line]
        simp only [List.mem_append, List.mem_singleton] at from' ⊢
        rintro c' (mem | mem | rfl)
        · exact from' c' (.inl mem)
        · exact from' c' (.inr mem)
        · exact .inr late
      · rw [line]
        simpa [List.filter_append, unknown] using ordered
  taken := taken ▸ h.taken
  gone dead := absurd (h.gone dead).1 alive

theorem passes (h : Later x y) (sound : x.Sound) (sound' : y.Sound) (p : y.Passes z) :
    Later x z := by
  have nothing : y.entered = y.entered ++ [] := (List.append_nil _).symm
  cases p with
  | still calls more =>
    exact h.fewer rfl more nothing (List.Sublist.refl _) (List.prefix_refl _) fun dead =>
      ⟨dead, rfl, rfl⟩
  | lines new alive =>
    exact h.comes sound new rfl rfl (.inr ⟨rfl, by simp [line]⟩) rfl alive
  | enters new alive => exact h.comes sound new rfl rfl (.inl ⟨rfl, rfl⟩) rfl alive
  | places next alive =>
    exact h.fewer rfl (Nat.le_refl _) rfl (by simp [line, next]) (List.prefix_refl _) fun dead =>
      absurd dead alive
  | refuses next =>
    exact h.fewer rfl (Nat.le_refl _) nothing (by simp [line, next]) (List.prefix_refl _)
      fun dead => ⟨dead, rfl, rfl⟩
  | takes next =>
    refine h.fewer rfl (Nat.le_refl _) nothing ?_ (List.prefix_append ..) fun dead => ?_
    · rw [List.nil_append, line, line_of_takes]
    · simp [(sound'.gone dead).1] at next
  | rests _ alive =>
    exact h.fewer rfl (Nat.le_refl _) nothing (List.Sublist.refl _) (List.prefix_refl _)
      fun dead => absurd dead alive
  | dies =>
    exact h.fewer rfl (Nat.le_refl _) nothing (by simp [line]) (List.prefix_refl _)
      fun _ => ⟨rfl, rfl, rfl⟩
  | withdraws =>
    refine h.fewer rfl (Nat.le_refl _) nothing ?_ (List.prefix_refl _) fun dead => ⟨dead, rfl, rfl⟩
    exact ((List.Sublist.refl _).append List.filter_sublist).map _

end Later

end Passage

end Lifecycle
