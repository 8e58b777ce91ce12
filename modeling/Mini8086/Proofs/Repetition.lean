import Mini8086.Transition

/-!
# Repeated transitions

A transition made a number of times succeeds if every single one does, and fails with the error of
the first one that does not.
-/

set_option autoImplicit false

namespace Mini8086.Transition

variable {σ ε ω : Type}

def times (action : Transition σ ε ω Unit) : Nat → Transition σ ε ω Unit
  | 0 => done ()
  | count + 1 => action >>= fun _ => action.times count

def LeadsTo (action : Transition σ ε ω Unit) (start last : σ) : Prop :=
  (action start).result = .ok () ∧ (action start).state = last

section Times

variable {action : Transition σ ε ω Unit} {start last other : σ}

theorem leadsTo_iff_exists :
    action.LeadsTo start last ↔ ∃ events, action start = ⟨.ok (), last, events⟩ := by
  unfold LeadsTo
  constructor
  · intro reached
    exact ⟨(action start).events, by rw [← reached.1, ← reached.2]⟩
  · intro reached
    obtain ⟨events, run⟩ := reached
    simp [run]

theorem LeadsTo.unique (one : action.LeadsTo start last) (two : action.LeadsTo start other) :
    last = other :=
  one.2.symm.trans two.2

theorem result_eq_ok_or_error (action : Transition σ ε ω Unit) (start : σ) :
    (∃ last, action.LeadsTo start last) ∨ ∃ error, (action start).result = .error error := by
  unfold LeadsTo
  cases ended : (action start).result with
  | ok value => exact .inl ⟨_, rfl, rfl⟩
  | error error => exact .inr ⟨error, rfl⟩

theorem LeadsTo.not_error (reached : action.LeadsTo start last) (error : ε) :
    (action start).result ≠ .error error := by
  intro failed
  rw [reached.1] at failed
  cases failed

theorem eq_of_result_error {error : ε} (failed : (action start).result = .error error) :
    action start = ⟨.error error, (action start).state, (action start).events⟩ := by
  rw [← failed]

@[simp]
theorem times_zero_leadsTo_iff : (action.times 0).LeadsTo start last ↔ start = last := by
  simp [LeadsTo, times, done]

theorem times_succ_leadsTo_iff {count : Nat} :
    (action.times (count + 1)).LeadsTo start last ↔
      ∃ middle, action.LeadsTo start middle ∧ (action.times count).LeadsTo middle last := by
  simp only [leadsTo_iff_exists, times, bind_eq_ok_iff]
  constructor
  · intro run
    obtain ⟨events, _, middle, earlier, later, first, others, _⟩ := run
    exact ⟨middle, ⟨earlier, first⟩, later, others⟩
  · intro run
    obtain ⟨middle, ⟨earlier, first⟩, later, others⟩ := run
    exact ⟨earlier ++ later, (), middle, earlier, later, first, others, rfl⟩

@[simp]
theorem times_one_leadsTo_iff :
    (action.times 1).LeadsTo start last ↔ action.LeadsTo start last := by
  rw [times_succ_leadsTo_iff]
  simp

theorem times_add_leadsTo_iff {count more : Nat} :
    (action.times (count + more)).LeadsTo start last ↔
      ∃ middle, (action.times count).LeadsTo start middle ∧
        (action.times more).LeadsTo middle last := by
  induction count generalizing start with
  | zero => simp
  | succ count ih =>
    rw [Nat.succ_add, times_succ_leadsTo_iff]
    simp only [ih, times_succ_leadsTo_iff]
    constructor
    · intro run
      obtain ⟨next, first, middle, earlier, later⟩ := run
      exact ⟨middle, ⟨next, first, earlier⟩, later⟩
    · intro run
      obtain ⟨middle, ⟨next, first, earlier⟩, later⟩ := run
      exact ⟨next, first, middle, earlier, later⟩

/-- Repeated transitions fail with the error of the first one that fails. -/
theorem result_times_eq_error_iff {count : Nat} {error : ε} :
    (action.times count start).result = .error error ↔
      ∃ fewer < count, ∃ middle, (action.times fewer).LeadsTo start middle ∧
        (action middle).result = .error error := by
  induction count generalizing start with
  | zero => simp [times, done]
  | succ count ih =>
    constructor
    · intro failed
      rcases result_eq_ok_or_error action start with ⟨next, first⟩ | ⟨early, first⟩
      · obtain ⟨events, run⟩ := leadsTo_iff_exists.mp first
        rw [times, bind_of_ok _ run] at failed
        obtain ⟨fewer, few, middle, others, last⟩ := ih.mp failed
        exact ⟨fewer + 1, Nat.succ_lt_succ few, middle,
          times_succ_leadsTo_iff.mpr ⟨next, first, others⟩, last⟩
      · rw [times, bind_of_error _ (eq_of_result_error first)] at failed
        rw [← first] at failed
        exact ⟨0, Nat.succ_pos count, start, by simp, failed⟩
    · intro failed
      obtain ⟨fewer, few, middle, others, stopped⟩ := failed
      cases fewer with
      | zero =>
        rw [times_zero_leadsTo_iff] at others
        subst others
        rw [times, bind_of_error _ (eq_of_result_error stopped)]
      | succ fewer =>
        obtain ⟨next, first, earlier⟩ := times_succ_leadsTo_iff.mp others
        obtain ⟨events, run⟩ := leadsTo_iff_exists.mp first
        rw [times, bind_of_ok _ run]
        exact ih.mpr ⟨fewer, Nat.lt_of_succ_lt_succ few, middle, earlier, stopped⟩

end Times

end Mini8086.Transition
