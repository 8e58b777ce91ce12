import Mini8086.Proofs.Steps

/-!
# Runs as bounded iteration

From an index within the program, steps are repeated until the index is behind the last instruction,
a step fails, or the limit is used up.  Main statement, `Execution.run_bounded`: a run ends exactly
as the first of these says, so a higher limit changes nothing but an exceeded one.
-/

set_option autoImplicit false

namespace Mini8086

/-! ## Outcomes without their journal -/

def Outcome.final {σ ε ω : Type} (outcome : Outcome σ ε ω Unit) : Except ε σ :=
  outcome.result.map fun _ => outcome.state

namespace Transition

variable {σ ε ω : Type} {action : Transition σ ε ω Unit} {start last : σ} {error : ε}

theorem final_eq_ok_iff : (action start).final = .ok last ↔ action.LeadsTo start last := by
  unfold Outcome.final LeadsTo
  cases (action start).result <;> simp [Except.map]

theorem final_eq_error_iff : (action start).final = .error error ↔
    (action start).result = .error error := by
  unfold Outcome.final
  cases (action start).result <;> simp [Except.map]

end Transition

/-! ## Faults of a step within the program -/

namespace Execution

variable {rule : SignRule} {program : Program} {machine last : Machine} {fault : Fault}

theorem step_ne_noInstruction (inside : machine.ip < program.size) (index : Nat) :
    (step rule program machine).result ≠ .error (noInstruction index) := by
  intro failed
  rcases (result_step_eq_error_iff (Array.getElem?_eq_getElem inside)).mp failed with
    stopped | ⟨offset, _, lost⟩
  · cases Instruction.ofOperand_of_execute rule stopped
  · obtain ⟨moves, cause, unresolved, same⟩ := target_fails_iff.mp lost
    cases same
    rcases resolveJump_error unresolved with same | same
    · cases same
      exact moves rfl
    · cases same

/-! ## Endings -/

/-- `Ending rule program limit machine ended`: how steps from the machine come to an end. -/
inductive Ending (rule : SignRule) (program : Program) (limit : Nat) (machine : Machine) :
    Except Fault Machine → Prop where
  | halted {count : Nat} {last : Machine} (within : count ≤ limit)
      (reached : ((step rule program).times count).LeadsTo machine last)
      (behind : last.ip = program.size) :
      Ending rule program limit machine (.ok last)
  | stopped {count : Nat} {middle : Machine} {fault : Fault} (within : count < limit)
      (reached : ((step rule program).times count).LeadsTo machine middle)
      (inside : middle.ip < program.size)
      (failed : (step rule program middle).result = .error fault) :
      Ending rule program limit machine (.error fault)
  | exhausted {middle : Machine}
      (reached : ((step rule program).times limit).LeadsTo machine middle)
      (inside : middle.ip < program.size) :
      Ending rule program limit machine (.error (.stepLimitExceeded middle.ip limit))

theorem exists_ending (rule : SignRule) (limit : Nat) (start : machine.ip ≤ program.size) :
    ∃ ended, Ending rule program limit machine ended := by
  rcases steps_trichotomy rule program limit machine with
    ⟨count, few, last, reached, behind⟩ | ⟨count, few, middle, reached, inside, fault, failed⟩ |
    ⟨middle, reached, inside⟩
  · have bound := ip_le_size_of_steps start reached
    exact ⟨.ok last, .halted few reached (Nat.le_antisymm bound behind)⟩
  · exact ⟨.error fault, .stopped few reached inside failed⟩
  · exact ⟨_, .exhausted reached inside⟩

section Run

variable {settings : RunSettings} {keep : ExecutionEvent → Bool} {ended : Except Fault Machine}

theorem Ending.final_run (start : machine.ip ≤ program.size)
    (ending : Ending settings.signRule program settings.stepLimit machine ended) :
    (run settings program keep machine).final = ended := by
  cases ending with
  | halted within reached behind =>
    rw [Transition.final_eq_ok_iff]
    exact run_leadsTo_of_halt start within reached (Nat.le_of_eq behind.symm)
  | stopped within reached inside failed =>
    rw [Transition.final_eq_error_iff]
    exact result_run_of_fault start within reached inside failed
  | exhausted reached inside =>
    rw [Transition.final_eq_error_iff]
    exact result_run_of_limit start reached inside

theorem final_run_eq_iff (start : machine.ip ≤ program.size) :
    (run settings program keep machine).final = ended ↔
      Ending settings.signRule program settings.stepLimit machine ended := by
  constructor
  · intro finished
    obtain ⟨found, ending⟩ := exists_ending settings.signRule settings.stepLimit start
    rw [ending.final_run start] at finished
    rwa [← finished]
  · exact Ending.final_run start

theorem run_ne_noInstruction (start : machine.ip ≤ program.size) (index : Nat) :
    (run settings program keep machine).final ≠ .error (noInstruction index) := by
  rw [Ne, final_run_eq_iff start]
  intro ending
  cases ending with
  | stopped within reached inside failed => exact step_ne_noInstruction inside index failed

/-! ## Other limits -/

/-- A run that does not use up its limit is the same under a higher one. -/
theorem run_raise {more : Nat} (higher : settings.stepLimit ≤ more)
    (within : ∀ index, (run settings program keep machine).final ≠
      .error (.stepLimitExceeded index settings.stepLimit)) :
    run { settings with stepLimit := more } program keep machine =
      run settings program keep machine := by
  rcases Nat.lt_or_ge program.size machine.ip with beyond | start
  · rw [run_of_beyond beyond, run_of_beyond beyond]
  · rcases steps_trichotomy settings.signRule program settings.stepLimit machine with
      ⟨count, few, last, reached, behind⟩ | ⟨count, few, middle, reached, inside, fault, failed⟩ |
      ⟨middle, reached, inside⟩
    · obtain ⟨events, steps⟩ := Transition.leadsTo_iff_exists.mp reached
      have still : count ≤ more := by omega
      have raised : run { settings with stepLimit := more } program keep machine = _ :=
        run_of_halt start still steps behind
      rw [raised, run_of_halt start few steps behind]
    · obtain ⟨events, steps⟩ := Transition.leadsTo_iff_exists.mp reached
      have still : count < more := by omega
      have stop := Transition.eq_of_result_error failed
      have raised : run { settings with stepLimit := more } program keep machine = _ :=
        run_of_fault start still steps inside stop
      rw [raised, run_of_fault start few steps inside stop]
    · exact absurd ((Ending.exhausted reached inside).final_run start) (within middle.ip)

/-- A program that halts in exactly as many steps as the limit allows. -/
theorem final_run_of_exact
    (reached : ((step settings.signRule program).times settings.stepLimit).LeadsTo machine last)
    (behind : last.ip = program.size) :
    (run settings program keep machine).final = .ok last := by
  have start : machine.ip ≤ program.size := by
    cases limit : settings.stepLimit with
    | zero =>
      rw [limit, Transition.times_zero_leadsTo_iff] at reached
      exact Nat.le_of_eq (reached ▸ behind)
    | succ count =>
      rw [limit] at reached
      obtain ⟨next, first, _⟩ := Transition.times_succ_leadsTo_iff.mp reached
      exact Nat.le_of_lt (ip_lt_size_of_step first)
  exact (Ending.halted (Nat.le_refl _) reached behind).final_run start

theorem final_run_of_one_less {fewer : Nat}
    (reached : ((step settings.signRule program).times (fewer + 1)).LeadsTo machine last) :
    ∃ middle, ((step settings.signRule program).times fewer).LeadsTo machine middle ∧
      (run { settings with stepLimit := fewer } program keep machine).final =
        .error (.stepLimitExceeded middle.ip fewer) := by
  obtain ⟨next, first, _⟩ := Transition.times_succ_leadsTo_iff.mp reached
  have start := Nat.le_of_lt (ip_lt_size_of_step first)
  obtain ⟨middle, earlier, final⟩ := Transition.times_add_leadsTo_iff.mp reached
  obtain ⟨last, final, _⟩ := Transition.times_succ_leadsTo_iff.mp final
  have inside := ip_lt_size_of_step final
  have ended : (run { settings with stepLimit := fewer } program keep machine).final = _ :=
    (Ending.exhausted earlier inside).final_run start
  exact ⟨middle, earlier, ended⟩

end Run

/-! ## The bound -/

structure BoundedIteration (settings : RunSettings) (program : Program)
    (keep : ExecutionEvent → Bool) (machine : Machine) : Prop where
  beyond : program.size < machine.ip →
    (run settings program keep machine).final =
      .error (.invalidJumpTarget machine.ip (.outOfRange machine.ip 0))
  ends_iff : machine.ip ≤ program.size → ∀ ended : Except Fault Machine,
    ((run settings program keep machine).final = ended ↔
      Ending settings.signRule program settings.stepLimit machine ended)
  stays_within : machine.ip ≤ program.size → ∀ (count : Nat) (last : Machine),
    ((step settings.signRule program).times count).LeadsTo machine last → last.ip ≤ program.size
  finds_instructions : machine.ip ≤ program.size → ∀ index : Nat,
    (run settings program keep machine).final ≠ .error (noInstruction index)
  raise : ∀ more : Nat, settings.stepLimit ≤ more →
    (∀ index, (run settings program keep machine).final ≠
      .error (.stepLimitExceeded index settings.stepLimit)) →
      run { settings with stepLimit := more } program keep machine =
        run settings program keep machine
  exact_limit : ∀ last : Machine,
    ((step settings.signRule program).times settings.stepLimit).LeadsTo machine last →
      last.ip = program.size →
        (run settings program keep machine).final = .ok last ∧
          ∀ fewer, fewer + 1 = settings.stepLimit →
            ∃ middle, ((step settings.signRule program).times fewer).LeadsTo machine middle ∧
              (run { settings with stepLimit := fewer } program keep machine).final =
                .error (.stepLimitExceeded middle.ip fewer)

theorem run_bounded (settings : RunSettings) (program : Program) (keep : ExecutionEvent → Bool)
    (machine : Machine) : BoundedIteration settings program keep machine where
  beyond := by
    intro beyond
    rw [run_of_beyond beyond]
    rfl
  ends_iff := by
    intro start ended
    exact final_run_eq_iff start
  stays_within := by
    intro start count last reached
    exact ip_le_size_of_steps start reached
  finds_instructions := by
    intro start index
    exact run_ne_noInstruction start index
  raise := by
    intro more higher within
    exact run_raise higher within
  exact_limit := by
    intro last reached behind
    refine ⟨final_run_of_exact reached behind, ?_⟩
    intro fewer one_less
    rw [← one_less] at reached
    exact final_run_of_one_less reached

end Execution
end Mini8086
