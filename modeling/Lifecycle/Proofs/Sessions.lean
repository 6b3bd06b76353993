import Lifecycle.Proofs.Change
import Lifecycle.Session

/-! What happens in a session can happen to its machine: by whatever way callers come, each step
leads from one quiet configuration to another. So what is proved of the configurations of a machine
holds of every session after each of its steps. -/

namespace Lifecycle.Session

open Machine

def after (s : Session) (steps : List Step) : Session :=
  steps.foldl (fun s step => (s.take step).1) s

theorem machine_settleCall (s : Session) (id : String) (o : OpenCall) (otherwise : Report) :
    (s.settleCall id o otherwise).1.machine = s.machine := by
  unfold settleCall
  split <;> rfl

theorem machine_opening (s : Session) (id : String) (frame : Option (Codec × String)) (v : Move) :
    (s.opening id frame v).1.machine = s.machine.move v := by
  rw [opening, machine_settleCall]

variable {s : Session}

/-- A step makes a move, or does something that observers do, or nothing. -/
theorem machine_take (s : Session) (step : Step) :
    (s.take step).1.machine = s.machine ∨ (∃ v, (s.take step).1.machine = s.machine.move v) ∨
      (s.take step).1.machine = s.machine.clearHistory ∨
      (s.take step).1.machine = s.machine.clearEvents ∨
      (s.take step).1.machine = s.machine.log [.undecodable] := by
  cases step with
  | dispatch entry command args id =>
    unfold take
    dsimp only
    split
    · exact .inl rfl
    · exact .inr (.inl ⟨_, machine_opening ..⟩)
  | frame codec bytes id =>
    unfold take
    dsimp only
    split
    · exact .inr (.inl ⟨_, machine_opening ..⟩)
    · exact .inr (.inr (.inr (.inr rfl)))
    · exact .inl rfl
  | setState state id => exact .inr (.inl ⟨_, machine_opening ..⟩)
  | join id =>
    unfold take
    dsimp only
    split
    · exact .inl rfl
    · exact .inl (machine_settleCall ..)
  | abandon id =>
    unfold take
    dsimp only
    split
    · exact .inl rfl
    · split
      · exact .inl rfl
      · exact .inr (.inl ⟨_, rfl⟩)
  | release n => exact .inr (.inl ⟨_, rfl⟩)
  | clearHistory =>
    unfold take
    dsimp only
    split
    · exact .inr (.inr (.inl rfl))
    · exact .inl rfl
  | clearEvents => exact .inr (.inr (.inr (.inl rfl)))
  | events =>
    unfold take
    dsimp only
    split <;> exact .inl rfl
  | _ => exact .inl rfl

theorem reaches_take (quiet : s.machine.isQuiet) (step : Step) :
    Reaches s.machine (s.take step).1.machine ∧ (s.take step).1.machine.isQuiet := by
  rcases s.machine_take step with same | ⟨v, same⟩ | same | same | same
  · rw [same]
    exact ⟨.refl, quiet⟩
  · rw [same]
    exact ⟨reaches_move quiet v, isQuiet_move _ v⟩
  · rw [same]
    exact ⟨.single .clearHistory, quiet⟩
  · rw [same]
    exact ⟨.single .clearEvents, quiet⟩
  · rw [same]
    exact ⟨.single .refusedFrame, quiet⟩

theorem reaches_after (quiet : s.machine.isQuiet) (steps : List Step) :
    Reaches s.machine (s.after steps).machine ∧ (s.after steps).machine.isQuiet := by
  induction steps generalizing s with
  | nil => exact ⟨.refl, quiet⟩
  | cons step steps ih =>
    obtain ⟨reaches, still⟩ := reaches_take quiet step
    obtain ⟨later, quiet'⟩ := ih still
    exact ⟨reaches.trans later, quiet'⟩

theorem exists_of_bind {ε α β : Type} {x : Except ε α} {f : α → Except ε β} {b : β}
    (h : x >>= f = .ok b) : ∃ a, x = .ok a ∧ f a = .ok b := by
  cases x with
  | error e => cases h
  | ok a => exact ⟨a, rfl, h⟩

theorem status_of_build {b : Dispatcher.Builder} {d : Dispatcher} (h : b.build = .ok d) :
    d.status = {} := by
  obtain ⟨_, -, h⟩ := exists_of_bind h
  obtain ⟨registry, -, h⟩ := exists_of_bind h
  cases h
  rfl

theorem status_of_setup {x : Setup} {d : Dispatcher} (h : x.dispatcher = .ok d) :
    d.status = {} := by
  unfold Setup.dispatcher at h
  extract_lets finish at h
  have fresh (ready : Option Registry) (h : finish ready = .ok d) : d.status = {} := by
    simp only [finish] at h
    split at h
    · obtain ⟨registry, -, h⟩ := exists_of_bind h
      cases h
      rfl
    · exact status_of_build h
  split at h
  · obtain ⟨ready, -, h⟩ := exists_of_bind h
    exact fresh ready h
  · exact fresh none h

theorem machine_of_start {x : Setup} (h : start x = .ok s) :
    ∃ d, x.dispatcher = .ok d ∧ d.status = {} ∧ s.machine = .start d x.channelCapacity := by
  obtain ⟨d, built, h⟩ := exists_of_bind h
  cases h
  exact ⟨d, built, status_of_setup built, rfl⟩

/-- A session passes through configurations of a fresh dispatcher, and is quiet after each step. -/
theorem reachable_after {x : Setup} (h : start x = .ok s) (steps : List Step) :
    ∃ d, x.dispatcher = .ok d ∧ d.status = {} ∧
      Reachable d x.channelCapacity (s.after steps).machine ∧ (s.after steps).machine.isQuiet := by
  obtain ⟨d, built, fresh, same⟩ := machine_of_start h
  have quiet : s.machine.isQuiet := by
    rw [same]
    exact isQuiet_start d x.channelCapacity
  obtain ⟨reaches, still⟩ := reaches_after quiet steps
  rw [same] at reaches
  exact ⟨d, built, fresh, reaches, still⟩

end Lifecycle.Session
