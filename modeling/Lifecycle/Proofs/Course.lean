import Lifecycle.Proofs.Replay
import Mathlib.Data.List.Nodup

/-! The course of a single call through the gate, as a lawful journal tells it. Its handler runs
once at most, and only if the command was admitted; its dispatch is decided once at most; and
whoever leaves without a decision is a caller who gave up inside the handler. -/

namespace Lifecycle

def Note.run? : Note → Option Nat
  | .ran call .. => some call
  | _ => none

def Note.left? : Note → Option Nat
  | .left call => some call
  | _ => none

def Note.decided? : Note → Option (Nat × Result)
  | .committed call _ result _ => some (call, result)
  | _ => none

def Note.outcome? : Note → Option (Nat × Result)
  | .appended call result => some (call, result)
  | _ => none

theorem Note.decided?_of_isAside {n : Note} (h : n.isAside) : n.decided? = none := by
  cases n <;> first | rfl | cases h

theorem Note.outcome?_of_isAside {n : Note} (h : n.isAside) : n.outcome? = none := by
  cases n <;> first | rfl | cases h

theorem Note.left?_of_isAside {n : Note} (h : n.isAside) : n.left? = none := by
  cases n <;> first | rfl | cases h

theorem Note.run?_of_isAside {n : Note} (h : n.isAside) : n.run? = none := by
  cases n <;> first | rfl | cases h

theorem Note.contributor?_of_decided? {n : Note} {x : Nat × Result} (h : n.decided? = some x) :
    n.contributor? = some x.1 := by
  cases n <;> cases h
  rfl

/-- The decision that is published and not recorded yet. -/
def Phase.due? : Phase → Option (Nat × Result)
  | published t result _ => some (t.call, result)
  | _ => none

/-- The call that has recorded its dispatch and not left yet. -/
def Phase.closing? : Phase → Option Nat
  | appended t _ | done t => some t.call
  | _ => none

namespace Lawful

variable {d : Dispatcher} {j : List Note} {a b : Standing} {n : Note} {call : Nat} {t : Ticket}

theorem replied (h : Lawful d j a) (inside : a.phase.ticket? = some t)
    (decided : ¬ a.phase.undecided) :
    ∃ n ∈ j, ∃ answer, n.reply? = some (t.call, answer) := by
  induction h with
  | nil => cases inside
  | @snoc j a n b before next ih =>
    have earlier (found : ∃ n ∈ j, ∃ answer, n.reply? = some (t.call, answer)) :
        ∃ k ∈ j ++ [n], ∃ answer, k.reply? = some (t.call, answer) := by
      obtain ⟨n, mem, answer, due⟩ := found
      exact ⟨n, List.mem_append_left _ mem, answer, due⟩
    cases next with
    | aside => exact earlier (ih inside decided)
    | enter | run => exact absurd rfl decided
    | refuse | decide | arrange =>
      cases inside
      exact ⟨_, List.mem_append_right _ (List.mem_singleton_self _), _, rfl⟩
    | append | announce => exact earlier (ih inside nofun)
    | leave | giveUp | loseResult | loseEvent => cases inside

/-- Whoever left the gate had something published for it, or was a caller who gave up while its
handler ran. -/
theorem left (h : Lawful d j a) (mem : .left call ∈ j) : ∃ t, ticketOf j call = some t ∧
    (t.seat ≠ .caller → ∃ n ∈ j, ∃ answer, n.reply? = some (call, answer)) := by
  induction h with
  | nil => cases mem
  | @snoc j a n b before next ih =>
    rcases List.mem_append.1 mem with mem | mem
    · obtain ⟨t, known, published⟩ := ih mem
      refine ⟨t, ticketOf_of_append _ known, fun detached => ?_⟩
      obtain ⟨n, mem, answer, due⟩ := published detached
      exact ⟨n, List.mem_append_left _ mem, answer, due⟩
    · cases List.mem_singleton.1 mem
      have done {t : Ticket} (inside : a.phase.ticket? = some t) (decided : ¬ a.phase.undecided) :
          ∃ u, ticketOf (j ++ [.left t.call]) t.call = some u ∧ (u.seat ≠ .caller →
            ∃ n ∈ j ++ [.left t.call], ∃ answer, n.reply? = some (t.call, answer)) := by
        obtain ⟨n, mem, answer, due⟩ := before.replied inside decided
        exact ⟨t, ticketOf_of_append _ (before.known inside),
          fun _ => ⟨n, List.mem_append_left _ mem, answer, due⟩⟩
      cases next with
      | aside silent => cases silent
      | leave | loseResult | loseEvent => exact done rfl nofun
      | @giveUp s t _ _ _ _ own =>
        exact ⟨t, ticketOf_of_append _ (before.known rfl), fun other => absurd own other⟩

theorem inside_or_left (h : Lawful d j a) (mem : .admitted call ∈ j) :
    (∃ t, a.phase.ticket? = some t ∧ t.call = call) ∨ .left call ∈ j := by
  induction h with
  | nil => cases mem
  | @snoc j a n b before next ih =>
    rcases List.mem_append.1 mem with old | mem
    · have earlier := (ih old).imp_right (List.mem_append_left [n])
      cases next with
      | aside | run | refuse | decide | arrange | append | announce => exact earlier
      | enter => exact earlier.imp_left nofun
      | leave | giveUp | loseResult | loseEvent =>
        rcases ih old with ⟨t, inside, rfl⟩ | gone
        · cases inside
          exact .inr (List.mem_append_right _ (List.mem_singleton_self _))
        · exact .inr (List.mem_append_left _ gone)
    · cases List.mem_singleton.1 mem
      cases next with
      | aside silent => cases silent
      | enter => exact .inl ⟨_, rfl, rfl⟩

theorem admitted_of_run (h : Lawful d j a) (mem : n ∈ j) (own : n.run? = some call) :
    .admitted call ∈ j := by
  induction h with
  | nil => cases mem
  | snoc before next ih =>
    rcases List.mem_append.1 mem with mem | mem
    · exact List.mem_append_left _ (ih mem)
    · cases List.mem_singleton.1 mem
      refine List.mem_append_left _ ?_
      cases next with
      | aside silent => cases (Note.run?_of_isAside silent).symm.trans own
      | run =>
        obtain ⟨k, l, rfl, -⟩ := before.admission rfl
        cases own
        simp
      | _ => cases own

theorem not_run (h : Lawful d j a) (inside : a.phase = .admitted t) :
    ∀ n ∈ j, n.run? ≠ some t.call := by
  induction h with
  | nil => cases inside
  | snoc before next ih =>
    refine List.forall_mem_append.2 ⟨?_, List.forall_mem_singleton.2 ?_⟩
    · cases next with
      | aside => exact ih inside
      | enter known first =>
        cases inside
        exact fun n mem own => first (before.admitted_of_run mem own)
      | _ => cases inside
    · cases next with
      | aside silent => exact fun own => by cases (Note.run?_of_isAside silent).symm.trans own
      | enter => nofun
      | _ => cases inside

theorem runs_nodup (h : Lawful d j a) : (j.filterMap Note.run?).Nodup := by
  induction h with
  | nil => exact .nil
  | snoc before next ih =>
    rw [filterMap_snoc]
    cases next with
    | aside silent => rwa [Note.run?_of_isAside silent, Option.toList_none, List.append_nil]
    | run =>
      refine List.nodup_append'.2 ⟨ih, List.nodup_singleton _, ?_⟩
      refine List.disjoint_singleton.2 fun mem => ?_
      obtain ⟨n, mem, own⟩ := List.mem_filterMap.1 mem
      exact before.not_run rfl n mem own
    | _ => exact (List.append_nil _).symm ▸ ih

theorem ran_ticket {context : Context} {observed : Bool} (h : Lawful d j a)
    (mem : .ran call context observed ∈ j) :
    ∃ t, ticketOf j call = some t ∧ t.work = .dispatch context.command context.args := by
  obtain ⟨k, l, rfl⟩ := List.append_of_mem mem
  obtain ⟨a, c, before, next, -⟩ := h.at_note
  cases next with
  | aside silent => cases silent
  | @run s t _ _ _ _ work => exact ⟨t, ticketOf_of_append _ (before.known rfl), work⟩

theorem not_run_of_refused {result : Result} {status : Status} (h : Lawful d j a)
    (mem : .committed call none result status ∈ j) : ∀ n ∈ j, n.run? ≠ some call := by
  induction h with
  | nil => cases mem
  | @snoc j a n b before next ih =>
    refine List.forall_mem_append.2 ⟨?_, List.forall_mem_singleton.2 ?_⟩
    · rcases List.mem_append.1 mem with mem | mem
      · exact ih mem
      · cases List.mem_singleton.1 mem
        cases next with
        | aside silent => cases silent
        | refuse => exact before.not_run rfl
    · cases next with
      | aside silent => exact fun own => by cases (Note.run?_of_isAside silent).symm.trans own
      | run =>
        intro own
        cases own
        have seen := (List.mem_append.1 mem).resolve_right (by simp)
        exact before.undecided_silent rfl rfl _ seen rfl
      | _ => nofun

theorem arranged_ticket {status : Status} (h : Lawful d j a) (mem : .arranged call status ∈ j) :
    ∃ t state, ticketOf j call = some t ∧ t.work = .arrange state := by
  obtain ⟨k, l, rfl⟩ := List.append_of_mem mem
  obtain ⟨a, c, before, next, -⟩ := h.at_note
  cases next with
  | aside silent => cases silent
  | @arrange s t state work =>
    exact ⟨t, state, ticketOf_of_append _ (before.known rfl), work⟩

theorem decided_nodup (h : Lawful d j a) : ((j.filterMap Note.decided?).map Prod.fst).Nodup := by
  induction h with
  | nil => exact .nil
  | snoc before next ih =>
    have follows := next
    rw [filterMap_snoc, List.map_append]
    cases next with
    | aside silent => simpa [Note.decided?_of_isAside silent] using ih
    | refuse | decide =>
      refine List.nodup_append'.2 ⟨ih, List.nodup_singleton _, ?_⟩
      refine List.disjoint_singleton.2 fun mem => ?_
      obtain ⟨x, mem, same⟩ := List.mem_map.1 mem
      obtain ⟨n, mem, decided⟩ := List.mem_filterMap.1 mem
      exact before.silent_before_reply follows rfl n mem
        ((Note.contributor?_of_decided? decided).trans (congrArg some same))
    | _ => simpa [Note.decided?] using ih

/-- If nothing breaks down, what is decided is recorded in the same order, up to what the holder of
the gate has still to record. -/
theorem outcomes_eq (unbroken : d.Unbroken) (h : Lawful d j a) :
    j.filterMap Note.outcome? ++ a.phase.due?.toList = j.filterMap Note.decided? := by
  induction h with
  | nil => rfl
  | snoc before next ih =>
    rw [filterMap_snoc, filterMap_snoc, ← ih]
    cases next with
    | aside silent =>
      simp [Note.decided?_of_isAside silent, Note.outcome?_of_isAside silent]
    | @loseResult _ _ _ _ k _ breaks => simp [unbroken.1 k] at breaks
    | @loseEvent _ _ _ k _ breaks => simp [unbroken.2 k] at breaks
    | _ => simp [Note.outcome?, Note.decided?, Phase.due?]

/-- If nothing breaks down, dispatches that no caller can give up are recorded in the order in which
they leave the gate. -/
theorem left_eq (unbroken : d.Unbroken) (h : Lawful d j a) {q : Nat → Bool}
    (own : ∀ t, ticketOf j t.call = some t → q t.call →
      t.seat ≠ .caller ∧ ∀ state, t.work ≠ .arrange state) :
    ((j.filterMap Note.outcome?).map Prod.fst).filter q =
      (j.filterMap Note.left?).filter q ++ a.phase.closing?.toList.filter q := by
  induction h with
  | nil => rfl
  | @snoc j a n b before next ih =>
    have ih := ih fun t known => own t (ticketOf_of_append _ known)
    have known {t : Ticket} (inside : a.phase.ticket? = some t) :
        ticketOf (j ++ [n]) t.call = some t := ticketOf_of_append _ (before.known inside)
    rw [filterMap_snoc, filterMap_snoc, List.map_append, List.filter_append, List.filter_append, ih]
    cases next with
    | aside silent =>
      simp [Note.outcome?_of_isAside silent, Note.left?_of_isAside silent]
    | @arrange s t state work =>
      have other : q t.call = false := Bool.eq_false_iff.2 fun mine =>
        (own t (known rfl) mine).2 state work
      simp [Note.outcome?, Note.left?, Phase.closing?, other]
    | @giveUp s t _ _ _ _ mine =>
      have other : q t.call = false := Bool.eq_false_iff.2 fun detached =>
        (own t (known rfl) detached).1 mine
      simp [Note.outcome?, Note.left?, Phase.closing?, other]
    | @loseResult _ _ _ _ k _ breaks => simp [unbroken.1 k] at breaks
    | @loseEvent _ _ _ k _ breaks => simp [unbroken.2 k] at breaks
    | _ => simp [Note.outcome?, Note.left?, Phase.closing?]

end Lawful

end Lifecycle
