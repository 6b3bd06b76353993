import Lifecycle.Proofs.Acts

/-! A turn stays in the queue until it is taken: whatever else goes on, nobody's turn is lost. -/

namespace Lifecycle.Machine

variable {m m' : Machine} {hand hand' : Hand} {t : Ticket} {turn : Turn}

theorem turns_answer (m : Machine) (call : Nat) (a : Answer) :
    (m.answer call a).turns = m.turns := by
  obtain ⟨calls, same, -⟩ := m.answer_eq call a
  rw [same]
  rfl

theorem mem_turns_wake (other : Turn) (mem : turn ∈ m.turns) : turn ∈ (m.wake other).turns := by
  simp only [turns, wake, List.mem_append] at mem ⊢
  exact mem.imp_left .inl

theorem mem_turns_putOff (other : Turn) (mem : turn ∈ m.turns) : turn ∈ (m.putOff other).turns := by
  simp only [turns, putOff, List.mem_append, List.mem_cons] at mem ⊢
  exact mem.imp_right .inr

theorem mem_turns_passOn (inside : m.gate.ticket? = some t) (mem : turn ∈ m.turns) :
    turn ∈ m.passOn.turns := by
  cases line : m.gate.waiting with
  | nil =>
    rw [passOn_of_nil inside line]
    exact mem
  | cons u us =>
    rw [passOn_of_cons inside line]
    exact mem_turns_wake _ mem

theorem Closes.mem_turns {command : Command} {e : Ending} (closes : Closes t command m e m')
    (mem : turn ∈ m.turns) : turn ∈ m'.turns := by
  cases closes with
  | told | panicked => rwa [turns_answer]
  | reported => exact mem_turns_wake _ mem
  | unheard => exact mem
  | @replied a =>
    rw [← m.turns_answer t.call a] at mem
    exact List.mem_cons_of_mem _ mem
  | buried =>
    obtain ⟨calls, same, -⟩ := m.bury_eq t.call
    rw [same]
    exact mem

theorem Act.mem_turns (act : Act m hand hand' m') (mem : turn ∈ m.turns) :
    turn ∈ m'.turns ∨ hand = .step ∧ m.turns.head? = some turn := by
  cases act with
  | picks next =>
    rw [next] at mem ⊢
    exact (List.mem_cons.1 mem).symm.imp_right fun same => ⟨rfl, congrArg some same.symm⟩
  | reports next =>
    rw [report, turns_answer]
    rw [next] at mem ⊢
    exact (List.mem_cons.1 mem).symm.imp_right fun same => ⟨rfl, congrArg some same.symm⟩
  | putsOff => exact .inl (mem_turns_putOff _ mem)
  | runs | publishes => exact .inl (mem_turns_putOff (m := m.within _ _ _ _ _) _ mem)
  | enters => exact .inl (List.mem_cons_of_mem _ mem)
  | takes =>
    simp only [turns, List.mem_append] at mem ⊢
    exact .inl (mem.imp_left .inl)
  | places asks places =>
    cases places with
    | refused => exact .inl (by rwa [turns_answer])
    | rouses => exact .inl (mem_turns_wake _ mem)
    | queues => exact .inl mem
  | leaves | arranges => exact .inl (mem_turns_passOn (m := m.within _ _ _ _ _) rfl mem)
  | closes closes => exact .inl (closes.mem_turns mem)
  | forces => exact .inl (by rwa [turns_answer])
  | comes => exact .inl (mem_turns_wake _ mem)
  | @rouses n => exact .inl (mem_turns_wake (m := { m with permits := m.permits + n }) _ mem)
  | handsOn _ _ inside => exact .inl (mem_turns_passOn inside mem)
  | _ => exact .inl mem

theorem Acts.mem_turns (acts : Acts hand m m') (busy : hand ≠ .empty) (later : hand ≠ .step)
    (mem : turn ∈ m.turns) : turn ∈ m'.turns := by
  induction acts with
  | last act => exact (act.mem_turns mem).resolve_right fun first => later first.1
  | more act still _ ih =>
    refine ih still ?_ ((act.mem_turns mem).resolve_right fun first => later first.1)
    rintro rfl
    cases act
    exact busy rfl

theorem Change.turn_stays (c : Change m m') (mem : turn ∈ m.turns) : turn ∈ m'.turns ∨
    ∃ ready deferred, m.turns = turn :: (ready ++ deferred) ∧
      m' = { m with ready, deferred }.take turn := by
  cases c with
  | turn =>
    rcases m.step_cases with ⟨-, same⟩ | ⟨first, ready, deferred, next, -, same⟩
    · exact .inl (same.symm ▸ mem)
    · rw [next] at mem
      rcases List.mem_cons.1 mem with rfl | later
      · exact .inr ⟨ready, deferred, next, same⟩
      · rw [same]
        refine .inl ?_
        cases first with
        | report =>
          rw [take, report, turns_answer]
          exact later
        | arrive | proceed | collect | place =>
          refine (acts_take { m with ready, deferred } ?_).mem_turns (by simp) (by simp) later
          simp
  | move v timely => exact .inl ((acts_submit timely).mem_turns (by simp) (by simp) mem)
  | clearHistory | clearEvents | refusedFrame => exact .inl mem

end Lifecycle.Machine
