import Lifecycle.Machine.Run

/-! Every turn lowers the work that is left, so a machine that settles is quiet. -/

namespace Lifecycle

theorem Turn.weight_proceed_le (share : Nat) : (Turn.proceed share).weight ≤ 4 := by
  cases share <;> simp [Turn.weight]

theorem Turn.weight_collect_le (share : Nat) : (Turn.collect share).weight ≤ 2 := by
  cases share <;> simp [Turn.weight]

theorem Turn.weight_proceed_fairShare : (Turn.proceed fairShare).weight = 3 := rfl

theorem Turn.weight_collect_fairShare : (Turn.collect fairShare).weight = 1 := rfl

namespace Machine

theorem weights_append (ts us : List Turn) : weights (ts ++ us) = weights ts + weights us := by
  induction ts with
  | nil => simp [weights]
  | cons t ts ih => simp [weights, ih, Nat.add_assoc]

@[simp] theorem work_note (m : Machine) (n : Note) : (m.note n).work = m.work := rfl

@[simp] theorem work_log (m : Machine) (rs : List LogRecord) : (m.log rs).work = m.work := rfl

@[simp] theorem work_setStatus (m : Machine) (s : Status) : (m.setStatus s).work = m.work := rfl

@[simp] theorem work_answer (m : Machine) (call : Nat) (a : Answer) :
    (m.answer call a).work = m.work := by
  unfold answer
  split <;> rfl

@[simp] theorem work_wake (m : Machine) (t : Turn) : (m.wake t).work = m.work + t.weight := by
  simp only [work, wake, weights_append, weights]
  omega

@[simp] theorem work_resume (m : Machine) (t : Turn) : (m.resume t).work = m.work + t.weight := by
  simp only [work, resume, weights]
  omega

@[simp] theorem work_putOff (m : Machine) (t : Turn) : (m.putOff t).work = m.work + t.weight := by
  simp only [work, putOff, weights]
  omega

@[simp] theorem work_passOn (m : Machine) : m.passOn.work = m.work := by
  unfold passOn Gate.leave
  cases held : m.gate.holder <;> cases h : m.gate.waiting <;>
    simp [work, note, wake, weights_append, weights, Turn.weight, fairShare, h] <;> omega

theorem work_arrive (m : Machine) (t : Ticket) (share : Nat) :
    (m.arrive t share).work ≤ m.work + 4 := by
  unfold arrive Gate.enter Gate.isFree
  cases share with
  | zero => simp [Turn.weight]
  | succ share =>
    have light := Turn.weight_proceed_le share
    cases m.gate.holder with
    | none => simp [work, note, resume, weights]; omega
    | some h => simp [work]; omega

theorem work_arrive_fairShare (m : Machine) (t : Ticket) :
    (m.arrive t fairShare).work ≤ m.work + 3 := by
  unfold arrive Gate.enter Gate.isFree fairShare
  cases m.gate.holder with
  | none => simp [work, note, resume, weights, Turn.weight]; omega
  | some h => simp [work]; omega

theorem fold_answer (a : Answer) (ps : List Post) (m : Machine) :
    ∃ calls, ps.foldl (fun m p => m.answer p.call a) m = { m with calls } := by
  induction ps generalizing m with
  | nil => exact ⟨m.calls, rfl⟩
  | cons p ps ih =>
    obtain ⟨calls, h⟩ := ih (m.answer p.call a)
    refine ⟨calls, ?_⟩
    rw [List.foldl_cons, h]
    unfold answer
    split <;> rfl

theorem work_bury (m : Machine) (call : Nat) : (m.bury call).work ≤ m.work := by
  rw [← work_answer m call (.undelivered .replyDropped)]
  unfold bury
  generalize m.answer call (.undelivered .replyDropped) = m
  obtain ⟨calls, h⟩ := fold_answer (.undelivered .replyDropped) m.channel.queue m
  simp only [h]
  obtain ⟨calls', h'⟩ := fold_answer (.undelivered .closed) m.channel.waiting { m with calls }
  simp only [h', work]
  simp
  omega

theorem work_conclude (m : Machine) (t : Ticket) (command : Command) (e : Ending) (share : Nat) :
    (m.conclude t command e share).work ≤ m.work + 2 := by
  have light := Turn.weight_collect_le share
  rw [← work_passOn m]
  unfold conclude
  generalize m.passOn = m
  dsimp only
  split
  · simp
  · simp
  · simp
  · split <;> simp [Turn.weight]
  · split <;> simp [light]
  · exact Nat.le_add_right_of_le (work_bury m t.call)

theorem work_record (m : Machine) (call : Nat) (r : Result) (e : Event) :
    (m.record call r e).1.work = m.work := by
  unfold record
  dsimp only
  split
  · rfl
  · split <;> rfl

@[simp] theorem work_commit (m : Machine) (call : Nat) (command : Command) (previous : State)
    (outcome : Option Outcome) (d : Decision) :
    (m.commit call command previous outcome d).work = m.work := rfl

theorem recordCost_le (m : Machine) : m.recordCost ≤ 1 := by
  unfold recordCost
  split <;> decide

theorem work_wrapUp (m : Machine) (t : Ticket) (r : Result) (e : Event) (share : Nat) :
    (m.wrapUp t r e share).work ≤ m.work + if share = 0 then 3 else 2 := by
  have cost := m.recordCost_le
  unfold wrapUp
  split
  · have none : share = 0 := by omega
    rw [work_putOff, Turn.weight_proceed_fairShare, if_pos none]
    exact Nat.le_refl _
  · refine Nat.le_trans (work_conclude _ t r.command _ _) ?_
    simp only [work_record]
    split <;> omega

theorem work_finish (m : Machine) (t : Ticket) (command : Command) (previous : State)
    (outcome : Option Outcome) (d : Decision) (share : Nat) :
    (m.finish t command previous outcome d share).work ≤ m.work + if share = 0 then 3 else 2 :=
  work_wrapUp ..

theorem work_advance (m : Machine) (t : Ticket) (r : Run) (share : Nat) :
    (m.advance t r share).work ≤ m.work + if share = 0 then 3 else 2 := by
  unfold advance
  have atMost : min (min r.permits m.permits) share ≤ m.permits :=
    Nat.le_trans (Nat.min_le_left ..) (Nat.min_le_right ..)
  generalize min (min r.permits m.permits) share = got at atMost
  dsimp only
  split
  · refine Nat.le_trans (work_finish ..) ?_
    simp only [work]
    split <;> split <;> omega
  · split
    · rw [work_putOff, Turn.weight_proceed_fairShare]
      simp only [work]
      split <;> omega
    · simp only [work]
      omega

theorem work_begin (m : Machine) (t : Ticket) (share : Nat) :
    (m.begin t share).work ≤ m.work + if share = 0 then 3 else 2 := by
  unfold begin
  split
  · simp
  · split
    · exact work_finish ..
    · exact work_advance ..

theorem work_proceed (m : Machine) (share : Nat) :
    (m.proceed share).work < m.work + (Turn.proceed share).weight := by
  have heavy : (if share = 0 then 3 else 2) < (Turn.proceed share).weight := by
    cases share <;> simp [Turn.weight]
  refine Nat.lt_of_le_of_lt ?_ (Nat.add_lt_add_left heavy _)
  unfold proceed
  split
  · simp
  · split
    · exact work_begin ..
    · exact work_advance ..
    · exact work_wrapUp ..

theorem work_enqueue (m : Machine) (p : Post) : (m.enqueue p).work ≤ m.work + 5 := by
  unfold enqueue
  split <;>
    simp [work, note, wake, weights_append, weights, Turn.weight_collect_fairShare] <;> omega

theorem work_place (m : Machine) (p : Post) : (m.place p).work ≤ m.work + 5 := by
  unfold place
  split
  · simp
  · exact work_enqueue ..

theorem work_collect (m : Machine) (share : Nat) :
    (m.collect share).work < m.work + (Turn.collect share).weight := by
  cases share with
  | zero => simp [collect, Turn.weight, fairShare]
  | succ share =>
    refine Nat.lt_succ_of_le ?_
    simp only [collect]
    cases h : m.channel.queue with
    | nil => simp [work, h]
    | cons p queue =>
      refine Nat.le_trans (work_arrive ..) ?_
      cases w : m.channel.waiting <;>
        simp [work, note, wake, weights_append, weights, Turn.weight, h, w] <;> omega

theorem work_take (m : Machine) (t : Turn) : (m.take t).work < m.work + t.weight := by
  cases t with
  | arrive t => exact Nat.lt_succ_of_le (work_arrive_fairShare m t)
  | proceed share => exact work_proceed m share
  | collect share => exact work_collect m share
  | place p => exact Nat.lt_succ_of_le (work_place m p)
  | report call command text => simp [take, report, Turn.weight]

theorem isQuiet_iff {m : Machine} : m.isQuiet ↔ m.ready = [] ∧ m.deferred = [] := by
  simp [isQuiet]

theorem work_step {m : Machine} (h : m.isQuiet = false) : m.step.work < m.work := by
  unfold step
  split
  · next t ready same =>
    refine Nat.lt_of_lt_of_le (work_take _ t) ?_
    simp only [work, same, weights]
    omega
  · next t ready none same =>
    refine Nat.lt_of_lt_of_le (work_take _ t) ?_
    simp only [work, none, same, weights]
    omega
  · next none none' => simp [isQuiet, none, none'] at h

theorem steps_of_quiet {m : Machine} (h : m.isQuiet) (n : Nat) : steps n m = m := by
  cases n with
  | zero => rfl
  | succ n => rw [steps, if_pos h]

theorem isQuiet_steps {n : Nat} {m : Machine} (h : m.work ≤ n) : (steps n m).isQuiet := by
  induction n generalizing m with
  | zero =>
    cases quiet : m.isQuiet with
    | true => exact quiet
    | false => exact absurd (Nat.lt_of_lt_of_le (work_step quiet) h) (Nat.not_lt_zero _)
  | succ n ih =>
    rw [steps]
    cases quiet : m.isQuiet with
    | true => rw [if_pos rfl, quiet]
    | false =>
      rw [if_neg Bool.false_ne_true]
      exact ih (Nat.le_of_lt_succ (Nat.lt_of_lt_of_le (work_step quiet) h))

theorem isQuiet_settle (m : Machine) : m.settle.isQuiet := isQuiet_steps (Nat.le_refl _)

theorem steps_add (a b : Nat) (m : Machine) : steps (a + b) m = steps b (steps a m) := by
  induction a generalizing m with
  | zero => rw [Nat.zero_add, steps]
  | succ a ih =>
    rw [Nat.succ_add, steps, steps]
    split
    · next quiet => exact (steps_of_quiet quiet b).symm
    · exact ih m.step

theorem steps_of_le {n : Nat} {m : Machine} (enough : m.work ≤ n) : steps n m = m.settle := by
  obtain ⟨b, rfl⟩ := Nat.exists_eq_add_of_le enough
  rw [steps_add]
  exact steps_of_quiet (isQuiet_settle m) b

theorem settle_of_quiet {m : Machine} (quiet : m.isQuiet) : m.settle = m := steps_of_quiet quiet _

theorem settle_of_busy {m : Machine} (busy : m.isQuiet = false) : m.settle = m.step.settle := by
  have less := work_step busy
  obtain ⟨k, same⟩ : ∃ k, m.work = k + 1 := ⟨m.work - 1, by omega⟩
  rw [settle, same, steps, busy]
  exact steps_of_le (by omega)

end Machine

end Lifecycle
