import Lifecycle.Proofs.Uncleared
import Mathlib.Data.List.Induction

/-! Records that are added to and cleared, in any order and number. A history drops its oldest
entry after a new one has come, a buffer before. Main statement: after the same uses both hold the
same items, the newest of those that were added since the last clearing, and the counter of the
buffer accounts for all that it neither holds nor lost by clearing. -/

namespace Lifecycle

inductive Use (α : Type)
  | add (x : α)
  | clear

namespace Use

variable {α σ : Type} {uses : List (Use α)} {x : α}

def added? : Use α → Option α
  | add x => some x
  | clear => none

def added (uses : List (Use α)) : List α := uses.filterMap added?

def recent (uses : List (Use α)) : List α := added (uses.rtakeWhile (·.added?.isSome))

theorem recent_add : recent (uses ++ [add x]) = recent uses ++ [x] := by
  rw [recent, List.rtakeWhile_concat_pos _ _ _ rfl]
  exact List.filterMap_append

theorem recent_clear : recent (uses ++ [clear]) = [] := by
  rw [recent, List.rtakeWhile_concat_neg _ _ _ Bool.false_ne_true]
  rfl

def run (put : σ → α → σ) (wipe : σ → σ) (s : σ) (uses : List (Use α)) : σ :=
  uses.foldl (fun s u => match u with
    | add x => put s x
    | clear => wipe s) s

variable {put : σ → α → σ} {wipe : σ → σ} {s : σ}

theorem run_add : run put wipe s (uses ++ [add x]) = put (run put wipe s uses) x :=
  List.foldl_append

theorem run_clear : run put wipe s (uses ++ [clear]) = wipe (run put wipe s uses) :=
  List.foldl_append

theorem run_recent (P : σ → List α → Prop) (puts : ∀ s xs x, P s xs → P (put s x) (xs ++ [x]))
    (wipes : ∀ s xs, P s xs → P (wipe s) []) (start : P s []) (uses : List (Use α)) :
    P (run put wipe s uses) (recent uses) := by
  induction uses using List.reverseRecOn with
  | nil => exact start
  | append_singleton uses u ih =>
    cases u with
    | add x =>
      rw [run_add, recent_add]
      exact puts _ _ x ih
    | clear =>
      rw [run_clear, recent_clear]
      exact wipes _ _ ih

end Use

variable {α β : Type} {n : Nat}

theorem map_rtake (f : α → β) (xs : List α) (n : Nat) :
    (xs.rtake n).map f = (xs.map f).rtake n := by
  rw [List.rtake, List.rtake, List.map_drop, List.length_map]

theorem Holds.cleared {capacity : Nat} {entries xs : List α} (holds : Holds n capacity entries xs) :
    Holds n capacity ([] : List α) [] := by
  rw [holds.bound]
  exact holds_nil n

def History.after (f : α → Result) (n : Nat) (uses : List (Use α)) : History :=
  Use.run (fun h x => h.append (f x)) clear (withCapacity n) uses

theorem History.after_holds (f : α → Result) (n : Nat) (uses : List (Use α)) :
    Holds n (after f n uses).capacity (after f n uses).entries ((Use.recent uses).map f) := by
  refine Use.run_recent (fun (h : History) xs => Holds n h.capacity h.entries (xs.map f)) ?_ ?_
    (holds_nil n) _
  · intro h xs x holds
    rw [List.map_append]
    exact h.holds_append _ (f x) holds
  · intro h xs holds
    exact holds.cleared

namespace EventBuffer

variable {g : α → Event} {b : EventBuffer} {added taken : Nat}

def after (g : α → Event) (n : Nat) (uses : List (Use α)) : EventBuffer :=
  Use.run (fun b x => b.push (g x)) clear (withCapacity n) uses

theorem after_holds (g : α → Event) (n : Nat) (uses : List (Use α)) :
    Holds n (after g n uses).capacity (after g n uses).events ((Use.recent uses).map g) := by
  refine Use.run_recent (fun (b : EventBuffer) xs => Holds n b.capacity b.events (xs.map g)) ?_ ?_
    (holds_nil n) _
  · intro b xs x holds
    rw [List.map_append]
    exact b.holds_push _ (g x) holds
  · intro b xs holds
    exact holds.cleared

def cleared (g : α → Event) : EventBuffer → List (Use α) → Nat
  | _, [] => 0
  | b, .add x :: uses => cleared g (b.push (g x)) uses
  | b, .clear :: uses => b.events.length + cleared g b.clear uses

/-- Every event that was added is held, was taken by a clearing, or was dropped and counted. The
counter itself may have come around. -/
structure Balanced (added taken : Nat) (b : EventBuffer) : Prop where
  room : b.capacity ≠ 0
  balance : ∃ dropped, b.evicted = .ofNat dropped ∧ b.events.length + taken + dropped = added

theorem Balanced.push (balanced : Balanced added taken b) (e : Event) :
    Balanced (added + 1) taken (b.push e) where
  room := b.capacity_push e ▸ balanced.room
  balance := by
    obtain ⟨dropped, evicted, balance⟩ := balanced.balance
    have room := balanced.room
    rw [EventBuffer.push]
    split
    · next full =>
      -- there is an oldest event to be dropped, since the capacity is not zero
      refine ⟨dropped + 1, by rw [evicted, UInt64.ofNat_add]; rfl, ?_⟩
      simp only [List.length_append, List.length_tail, List.length_singleton]
      omega
    · refine ⟨dropped, evicted, ?_⟩
      simp only [List.length_append, List.length_singleton]
      omega

theorem Balanced.clear (balanced : Balanced added taken b) :
    Balanced added (taken + b.events.length) b.clear where
  room := balanced.room
  balance := by
    obtain ⟨dropped, evicted, balance⟩ := balanced.balance
    refine ⟨dropped, evicted, ?_⟩
    rw [EventBuffer.clear, List.length_nil]
    omega

theorem Balanced.run (balanced : Balanced added taken b) (uses : List (Use α)) :
    Balanced (added + (Use.added uses).length) (taken + cleared g b uses)
      (Use.run (fun b x => b.push (g x)) EventBuffer.clear b uses) := by
  induction uses generalizing b added taken with
  | nil => exact balanced
  | cons u uses ih =>
    cases u with
    | add x =>
      have length : (Use.added (.add x :: uses)).length = 1 + (Use.added uses).length :=
        Nat.add_comm ..
      rw [length, ← Nat.add_assoc]
      exact ih (balanced.push (g x))
    | clear =>
      rw [cleared, ← Nat.add_assoc]
      exact ih balanced.clear

theorem balanced_after (g : α → Event) (n : Nat) (uses : List (Use α)) :
    Balanced (Use.added uses).length (cleared g (withCapacity n) uses) (after g n uses) := by
  have room : max n 1 ≠ 0 := by omega
  have start : Balanced 0 0 (withCapacity n) := ⟨room, 0, rfl, rfl⟩
  have balanced := start.run (g := g) uses
  rwa [Nat.zero_add, Nat.zero_add] at balanced

theorem Balanced.toNat_evicted (balanced : Balanced added taken b) :
    b.events.length + taken ≤ added ∧
      b.evicted.toNat = (added - b.events.length - taken) % UInt64.size := by
  obtain ⟨dropped, evicted, balance⟩ := balanced.balance
  have dropped_eq : dropped = added - b.events.length - taken := by omega
  rw [evicted, UInt64.toNat_ofNat', dropped_eq]
  exact ⟨by omega, rfl⟩

end EventBuffer

structure KeepNewest (f : α → Result) (g : α → Event) (n : Nat) (uses : List (Use α)) : Prop where
  /-- Both hold the same ones, the last of the recent ones, in order. -/
  newest : ∃ older kept, Use.recent uses = older ++ kept ∧
    kept.length = min (max n 1) (Use.recent uses).length ∧
    (History.after f n uses).entries = kept.map f ∧ (EventBuffer.after g n uses).events = kept.map g
  uncounted : (EventBuffer.after g n (uses ++ [.clear])).evicted =
    (EventBuffer.after g n uses).evicted
  within : (EventBuffer.after g n uses).events.length +
    EventBuffer.cleared g (.withCapacity n) uses ≤ (Use.added uses).length
  counted : (EventBuffer.after g n uses).evicted.toNat =
    ((Use.added uses).length - (EventBuffer.after g n uses).events.length -
      EventBuffer.cleared g (.withCapacity n) uses) % UInt64.size

theorem newest_kept (f : α → Result) (g : α → Event) (n : Nat) (uses : List (Use α)) :
    KeepNewest f g n uses where
  newest := by
    have parts : Use.recent uses = _ ++ (Use.recent uses).rtake (max n 1) :=
      (List.take_append_drop ..).symm
    refine ⟨_, _, parts, length_rtake .., ?_, ?_⟩
    · rw [(History.after_holds f n uses).latest, map_rtake]
    · rw [(EventBuffer.after_holds g n uses).latest, map_rtake]
  uncounted := by
    rw [EventBuffer.after, Use.run_clear]
    rfl
  within := (EventBuffer.balanced_after g n uses).toNat_evicted.1
  counted := (EventBuffer.balanced_after g n uses).toNat_evicted.2

/-- With no capacity the newest event is kept all the same; clearing takes one that is not counted,
and the next finds room. -/
example :
    EventBuffer.after Event.healthChecked 0 [.add .active, .add .error, .clear, .add .stopped] =
      { capacity := 1, events := [.healthChecked .stopped], evicted := 1 } := rfl

end Lifecycle
