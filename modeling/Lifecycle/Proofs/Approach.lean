import Lifecycle.Gate
import Mathlib.Data.List.Nodup
import Mathlib.Data.List.Range

/-! The way to the gate. Those who use the gate on an account of their own come to it with a turn of
their own, the channel's worker brings its requests there, and all stand in one row of which the
first is inside. Nobody but the first leaves the row, unless it gives up. So those who come by
themselves keep their order, and the worker, as long as it has one place in the row, gets ahead of
anybody at most once. -/

namespace Lifecycle

def Ticket.isSent (t : Ticket) : Bool := t.seat == .worker

/-- The way to the gate with its past. -/
structure Approach where
  calls : Nat
  opened : List Ticket
  left : List Nat
  row : List Ticket
  coming : List Ticket

namespace Approach

/-- What can happen on the way, and who leaves the gate with it. -/
inductive Advances (x : Approach) : List Ticket → Approach → Prop
  | still : Advances x [] x
  | sends (t : Ticket) (sent : t.isSent) (new : t.call = x.calls) :
    Advances x [] { x with calls := x.calls + 1, opened := x.opened ++ [t] }
  | comes (t : Ticket) (own : t.isSent = false) (new : t.call = x.calls) :
    Advances x [] { x with
      calls := x.calls + 1, opened := x.opened ++ [t], coming := x.coming ++ [t] }
  | joins (t : Ticket) (ts : List Ticket) (first : x.coming = t :: ts) :
    Advances x [] { x with row := x.row ++ [t], coming := ts }
  | brings (t : Ticket) (sent : t.isSent) (known : t ∈ x.opened) :
    Advances x [] { x with row := x.row ++ [t] }
  | leaves (t : Ticket) (ts : List Ticket) (first : x.row = t :: ts) :
    Advances x [t] { x with left := x.left ++ [t.call], row := ts }
  | withdraws {row} (fewer : row.Sublist x.row) : Advances x [] { x with row }

structure Sound (gone : List Ticket) (x : Approach) : Prop where
  left : gone.map Ticket.call = x.left
  known : ∀ t ∈ gone ++ x.row ++ x.coming, t ∈ x.opened
  own : ∀ t ∈ x.coming, t.isSent = false
  ordered : ((gone ++ x.row ++ x.coming).filter (!·.isSent)).Pairwise (·.call < ·.call)
  numbered : x.opened.map Ticket.call = List.range x.calls

variable {x y : Approach} {gone out : List Ticket} {t u : Ticket}

namespace Sound

section

variable (h : x.Sound gone)
include h

theorem call_lt (mem : t ∈ x.opened) : t.call < x.calls := by
  have inRange : t.call ∈ List.range x.calls := h.numbered ▸ List.mem_map_of_mem mem
  exact List.mem_range.1 inRange

theorem eq_of_call (mem : t ∈ x.opened) (mem' : u ∈ x.opened) (same : t.call = u.call) :
    t = u := by
  have once : (x.opened.map Ticket.call).Nodup := h.numbered ▸ List.nodup_range
  exact List.inj_on_of_nodup_map once mem mem' same

theorem numbered_snoc (new : t.call = x.calls) :
    (x.opened ++ [t]).map Ticket.call = List.range (x.calls + 1) := by
  rw [List.map_append, h.numbered, List.range_succ, ← new, List.map_singleton]

theorem comes (own : t.isSent = false) (new : t.call = x.calls) :
    Sound gone { x with
      calls := x.calls + 1, opened := x.opened ++ [t], coming := x.coming ++ [t] } where
  left := h.left
  known u mem := by
    rw [← List.append_assoc, List.mem_append] at mem
    exact List.mem_append.2 (mem.imp_left (h.known u))
  own := List.forall_mem_append.2 ⟨h.own, List.forall_mem_singleton.2 own⟩
  ordered := by
    rw [← List.append_assoc, List.filter_append, List.pairwise_append]
    refine ⟨h.ordered, ?_, fun u mem v last => ?_⟩
    · exact (List.pairwise_singleton _ t).filter _
    · rw [List.mem_singleton.1 (List.mem_of_mem_filter last), new]
      exact h.call_lt (h.known u (List.mem_of_mem_filter mem))
  numbered := h.numbered_snoc new

theorem brings (sent : t.isSent) (known : t ∈ x.opened) :
    Sound gone { x with row := x.row ++ [t] } where
  left := h.left
  known u mem := by
    simp only [List.mem_append, List.mem_singleton] at mem
    rcases mem with (gone | row | rfl) | coming
    · exact h.known u (by simp [gone])
    · exact h.known u (by simp [row])
    · exact known
    · exact h.known u (by simp [coming])
  own := h.own
  ordered := by
    have skipped : (x.row ++ [t]).filter (!·.isSent) = x.row.filter (!·.isSent) := by
      simp [sent]
    have ordered := h.ordered
    simp only [List.filter_append] at ordered skipped ⊢
    rwa [skipped]
  numbered := h.numbered

theorem advances (a : x.Advances out y) : y.Sound (gone ++ out) := by
  cases a with
  | still => rwa [List.append_nil]
  | sends t sent new =>
    rw [List.append_nil]
    exact { h with
      known := fun u mem => List.mem_append_left _ (h.known u mem)
      numbered := h.numbered_snoc new }
  | comes t own new =>
    rw [List.append_nil]
    exact h.comes own new
  | joins t ts first =>
    have same : gone ++ (x.row ++ [t]) ++ ts = gone ++ x.row ++ x.coming := by simp [first]
    rw [List.append_nil]
    exact { h with
      known := same ▸ h.known
      own := fun u mem => h.own u (first ▸ List.mem_cons_of_mem t mem)
      ordered := same ▸ h.ordered }
  | brings t sent known =>
    rw [List.append_nil]
    exact h.brings sent known
  | leaves t ts first =>
    have same : gone ++ [t] ++ ts ++ x.coming = gone ++ x.row ++ x.coming := by simp [first]
    exact { h with
      left := by rw [List.map_append, h.left, List.map_singleton]
      known := same ▸ h.known
      ordered := same ▸ h.ordered }
  | withdraws fewer =>
    have less := ((List.Sublist.refl gone).append fewer).append (List.Sublist.refl x.coming)
    rw [List.append_nil]
    exact { h with
      known := fun u mem => h.known u (less.subset mem)
      ordered := h.ordered.sublist (less.filter _) }

end

end Sound

/-- Somebody is in the row or was, and among those who left since the first `k` did and those who
stand before it there is at most one request of the worker. -/
structure Nears (u : Ticket) (k : Nat) (gone : List Ticket) (x : Approach) : Prop where
  known : u ∈ x.opened
  own : u.isSent = false
  came : u ∉ x.coming
  began : k ≤ gone.length
  few : ∀ ahead behind, gone.drop k ++ x.row = ahead ++ u :: behind →
    ahead.countP Ticket.isSent ≤ 1

namespace Nears

variable {k : Nat}

theorem of_joins (h : x.Sound gone) (row : x.row.countP Ticket.isSent ≤ 1)
    (alone : x.coming = []) (own : u.isSent = false) (new : u.call = x.calls) :
    let y : Approach := { x with
      calls := x.calls + 1, opened := x.opened ++ [u], row := x.row ++ [u] }
    y.Sound gone ∧ y.Nears u gone.length gone := by
  have joined := (h.comes own new).advances (.joins u [] (by simp [alone]))
  rw [List.append_nil] at joined
  refine ⟨?_, List.mem_append_right _ (List.mem_singleton_self u), own, by simp [alone],
    Nat.le_refl _, fun ahead behind same => ?_⟩
  · rwa [alone]
  · rw [List.drop_length, List.nil_append] at same
    have same : x.row ++ [u] = ahead ++ u :: behind := same
    have first : ahead <+: x.row ++ [u] := same ▸ List.prefix_append ..
    have length := congrArg List.length same
    simp only [List.length_append, List.length_cons, List.length_nil] at length
    have within := List.prefix_of_prefix_length_le first (List.prefix_append ..) (by omega)
    exact Nat.le_trans within.sublist.countP_le row

theorem few_snoc {ts : List Ticket} (other : t ≠ u)
    (few : ∀ ahead behind, ts = ahead ++ u :: behind → ahead.countP Ticket.isSent ≤ 1) :
    ∀ ahead behind, ts ++ [t] = ahead ++ u :: behind → ahead.countP Ticket.isSent ≤ 1 := by
  intro ahead behind same
  induction behind using List.reverseRecOn with
  | nil => exact absurd (List.append_inj' same rfl).2 (by simpa using other)
  | append_singleton behind v =>
    rw [← List.cons_append, ← List.append_assoc] at same
    exact few ahead behind (List.append_inj' same rfl).1

theorem few_sublist {ts us : List Ticket} (fewer : us.Sublist ts)
    (few : ∀ ahead behind, ts = ahead ++ u :: behind → ahead.countP Ticket.isSent ≤ 1) :
    ∀ ahead behind, us = ahead ++ u :: behind → ahead.countP Ticket.isSent ≤ 1 := by
  rintro ahead behind rfl
  obtain ⟨ahead', rest, rfl, before, after⟩ := List.append_sublist_iff.1 fewer
  obtain ⟨between, behind', rfl, mem, -⟩ := List.cons_sublist_iff.1 after
  obtain ⟨skipped, others, rfl⟩ := List.append_of_mem mem
  have few := few (ahead' ++ skipped) (others ++ behind') (by simp)
  exact Nat.le_trans (before.trans (List.sublist_append_left ..)).countP_le few

/-- Whatever happens on the way, the worker gets ahead at most once. -/
theorem advances (n : x.Nears u k gone) (h : x.Sound gone) (a : x.Advances out y) :
    y.Nears u k (gone ++ out) := by
  have less := h.call_lt n.known
  cases a with
  | still => rwa [List.append_nil]
  | sends t =>
    rw [List.append_nil]
    exact { n with known := List.mem_append_left _ n.known }
  | comes t own new =>
    rw [List.append_nil]
    refine { n with known := List.mem_append_left _ n.known, came := fun mem => ?_ }
    rcases List.mem_append.1 mem with mem | mem
    · exact n.came mem
    · rw [List.mem_singleton.1 mem, new] at less
      exact absurd less (Nat.lt_irrefl _)
  | joins t ts first =>
    have came := n.came
    rw [first, List.mem_cons, not_or] at came
    rw [List.append_nil]
    refine { n with came := came.2, few := ?_ }
    rw [← List.append_assoc]
    exact few_snoc (Ne.symm came.1) n.few
  | brings t sent =>
    have other : t ≠ u := by
      rintro rfl
      exact Bool.false_ne_true (n.own.symm.trans sent)
    rw [List.append_nil]
    refine { n with few := ?_ }
    rw [← List.append_assoc]
    exact few_snoc other n.few
  | leaves t ts first =>
    have same : (gone ++ [t]).drop k ++ ts = gone.drop k ++ x.row := by
      rw [List.drop_append_of_le_length n.began, List.append_assoc, first, List.singleton_append]
    exact { n with
      began := Nat.le_trans n.began (by simp)
      few := same ▸ n.few }
  | withdraws fewer =>
    rw [List.append_nil]
    exact { n with few := few_sublist ((List.Sublist.refl _).append fewer) n.few }

end Nears

end Approach

end Lifecycle
