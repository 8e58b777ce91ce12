import Mini8086.Proofs.BoundedRun

/-!
# How long a program can run

A step moves the index forward unless it takes a jump back, and it cannot move forward for longer
than the program is.  Main statement, `Execution.progress_bound`: steps are no more than the size of
the program for every jump back, and as many again; a program that has no jump back ends within its
size.
-/

set_option autoImplicit false

namespace Mini8086

namespace Program

/-- The machine is at a jump that leads back and that its zero flag lets it take. -/
def JumpsBack (program : Program) (machine : Machine) : Prop :=
  machine.flags.zero = false ∧
    ∃ instruction ∈ program[machine.ip]?, instruction.mnemonic = .branch .jnz ∧
      ∃ displacement ∈ instruction.displacement?, displacement < 0

instance (program : Program) (machine : Machine) : Decidable (program.JumpsBack machine) :=
  inferInstanceAs (Decidable (_ ∧ _))

def OnlyAhead (program : Program) : Prop :=
  ∀ instruction ∈ program, instruction.mnemonic = .branch .jnz →
    ∀ displacement ∈ instruction.displacement?, ¬ displacement < 0

theorem OnlyAhead.not_jumpsBack {program : Program} (ahead : program.OnlyAhead)
    (machine : Machine) : ¬ program.JumpsBack machine := by
  intro back
  obtain ⟨_, instruction, found, named, displacement, away, negative⟩ := back
  exact ahead instruction (Array.mem_of_getElem? found) named displacement away negative

end Program

/-! ## Directions of a jump -/

section Direction

variable {ι : Type} {length : ι → Nat} {items : Array ι} {index target : Nat} {offset : Int}

theorem lt_of_resolveJump_forward (inside : index < items.size) (ahead : 0 ≤ offset)
    (resolved : resolveJump length items index offset = .ok target) : index < target := by
  rw [resolveJump_forward inside ahead] at resolved
  obtain ⟨count, _, rfl⟩ := Stride.target_eq_ok_iff.mp resolved
  omega

theorem le_of_resolveJump_backward (inside : index < items.size) (back : offset < 0)
    (resolved : resolveJump length items index offset = .ok target) : target ≤ index := by
  rw [resolveJump_backward inside back] at resolved
  obtain ⟨count, landed, rfl⟩ := Stride.target_eq_ok_iff.mp resolved
  cases count with
  | zero =>
    obtain ⟨_, nowhere, _⟩ := stride_eq_lands_iff.mp landed
    rw [addressIn_zero] at nowhere
    omega
  | succ count => omega

end Direction

/-! ## One step -/

namespace Execution

variable {rule : SignRule} {program : Program} {machine last : Machine}

theorem step_advances_or_jumpsBack (stepped : (step rule program).LeadsTo machine last) :
    machine.ip < last.ip ∨ program.JumpsBack machine ∧ last.ip ≤ machine.ip := by
  have inside := ip_lt_size_of_step stepped
  obtain ⟨instruction, offset, next, found, executed, aimed, rfl⟩ := executed_of_step stepped
  rw [target_eq inside] at aimed
  cases resolved : resolveJump Instruction.length program machine.ip offset with
  | error cause =>
    rw [resolved] at aimed
    cases aimed
  | ok target =>
    rw [resolved] at aimed
    cases aimed
    rcases Int.lt_or_le offset 0 with back | ahead
    · right
      obtain ⟨_, rfl⟩ := (Instruction.result_execute_eq_ok_iff rule).mp executed
      obtain ⟨named, taken, displacement, away, _⟩ :=
        Instruction.taken_of_distance (Int.ne_of_lt back)
      rw [Instruction.distance_of_taken named taken away] at back
      refine ⟨⟨taken, instruction, found, named, displacement, ?_, ?_⟩,
        le_of_resolveJump_backward inside ?_ resolved⟩
      · simp [Instruction.displacement?, away]
      · exact Int8.lt_iff_toInt_lt.mpr back
      · rwa [Instruction.distance_of_taken named taken away]
    · left
      exact lt_of_resolveJump_forward inside ahead resolved

/-! ## Many steps -/

/-- How many of the first `count` steps from a machine are jumps back. -/
def backJumps (rule : SignRule) (program : Program) : Nat → Machine → Nat
  | 0, _ => 0
  | count + 1, machine =>
    (if program.JumpsBack machine then 1 else 0) +
      backJumps rule program count (step rule program machine).state

/-- Forward steps are paid for by the index, and a jump back gives back less than the program. -/
theorem steps_add_ip_le {count : Nat}
    (stepped : ((step rule program).times count).LeadsTo machine last) :
    count + machine.ip ≤ program.size * backJumps rule program count machine + last.ip := by
  induction count generalizing machine with
  | zero =>
    rw [Transition.times_zero_leadsTo_iff] at stepped
    rw [stepped]
    omega
  | succ count ih =>
    obtain ⟨next, first, others⟩ := Transition.times_succ_leadsTo_iff.mp stepped
    have inside := ip_lt_size_of_step first
    have bound := ih others
    rw [backJumps, first.2]
    by_cases back : program.JumpsBack machine
    · rw [if_pos back, Nat.mul_add, Nat.mul_one]
      omega
    · rw [if_neg back, Nat.zero_add]
      rcases step_advances_or_jumpsBack first with ahead | ⟨jumps, _⟩
      · omega
      · exact absurd jumps back

theorem backJumps_of_onlyAhead (ahead : program.OnlyAhead) (rule : SignRule) (count : Nat)
    (machine : Machine) : backJumps rule program count machine = 0 := by
  induction count generalizing machine with
  | zero => rfl
  | succ count ih => rw [backJumps, if_neg (ahead.not_jumpsBack machine), ih]

theorem steps_le_of_onlyAhead (ahead : program.OnlyAhead) {count : Nat}
    (stepped : ((step rule program).times count).LeadsTo machine last) : count ≤ last.ip := by
  have bound := steps_add_ip_le stepped
  rw [backJumps_of_onlyAhead ahead] at bound
  omega

theorem steps_le (start : machine.ip ≤ program.size) {count : Nat}
    (stepped : ((step rule program).times count).LeadsTo machine last) :
    count ≤ program.size * (backJumps rule program count machine + 1) := by
  have bound := steps_add_ip_le stepped
  have within := ip_le_size_of_steps start stepped
  rw [Nat.mul_add, Nat.mul_one]
  omega

/-- Without a jump back every step counts against the size, so the third way to end is none. -/
theorem ends_of_onlyAhead (ahead : program.OnlyAhead) (rule : SignRule)
    (start : machine.ip ≤ program.size) :
    (∃ count ≤ program.size, ∃ last, ((step rule program).times count).LeadsTo machine last ∧
        last.ip = program.size) ∨
      ∃ count < program.size, ∃ middle, ((step rule program).times count).LeadsTo machine middle ∧
        middle.ip < program.size ∧ ∃ fault, (step rule program middle).result = .error fault := by
  rcases steps_trichotomy rule program program.size machine with
    ⟨count, few, last, reached, behind⟩ | stopped | ⟨middle, reached, inside⟩
  · exact .inl ⟨count, few, last, reached,
      Nat.le_antisymm (ip_le_size_of_steps start reached) behind⟩
  · exact .inr stopped
  · exact absurd (steps_le_of_onlyAhead ahead reached) (by omega)

/-! ## Runs -/

theorem step_ne_stepLimitExceeded (rule : SignRule) (program : Program) (machine : Machine)
    (index limit : Nat) :
    (step rule program machine).result ≠ .error (.stepLimitExceeded index limit) := by
  intro failed
  cases found : program[machine.ip]? with
  | none =>
    rw [step_of_none found] at failed
    cases failed
  | some instruction =>
    rcases (result_step_eq_error_iff found).mp failed with stopped | ⟨offset, _, lost⟩
    · cases Instruction.ofOperand_of_execute rule stopped
    · obtain ⟨_, cause, _, same⟩ := target_fails_iff.mp lost
      cases same

section Run

variable {settings : RunSettings} {keep : ExecutionEvent → Bool} {index limit : Nat}

theorem exists_steps_of_exceeded
    (exceeded : (run settings program keep machine).result =
      .error (.stepLimitExceeded index limit)) :
    ∃ middle, ((step settings.signRule program).times settings.stepLimit).LeadsTo machine middle ∧
      middle.ip < program.size := by
  rcases Nat.lt_or_ge program.size machine.ip with beyond | start
  · rw [run_of_beyond beyond] at exceeded
    cases exceeded
  · rcases (result_run_eq_error_iff start).mp exceeded with
      ⟨count, _, middle, _, _, stopped⟩ | ⟨middle, reached, inside, _⟩
    · exact absurd stopped (step_ne_stepLimitExceeded _ _ _ _ _)
    · exact ⟨middle, reached, inside⟩

theorem stepLimit_lt_of_exceeded
    (exceeded : (run settings program keep machine).result =
      .error (.stepLimitExceeded index limit)) :
    settings.stepLimit <
      program.size * (backJumps settings.signRule program settings.stepLimit machine + 1) := by
  obtain ⟨middle, reached, inside⟩ := exists_steps_of_exceeded exceeded
  have bound := steps_add_ip_le reached
  rw [Nat.mul_add, Nat.mul_one]
  omega

end Run

/-! ## The bound -/

/-- How long steps and runs of a program can be. -/
structure ProgressBound (settings : RunSettings) (program : Program) : Prop where
  step_moves : ∀ machine last : Machine, machine.ip < program.size →
    (step settings.signRule program).LeadsTo machine last →
      machine.ip < last.ip ∨ program.JumpsBack machine ∧ last.ip ≤ machine.ip
  steps_bounded : ∀ (machine last : Machine) (count : Nat), machine.ip ≤ program.size →
    ((step settings.signRule program).times count).LeadsTo machine last →
      count ≤ program.size * (backJumps settings.signRule program count machine + 1)
  halts_after_jumps : ∀ (keep : ExecutionEvent → Bool) (machine last : Machine),
    machine.ip ≤ program.size → (run settings program keep).LeadsTo machine last →
      ∃ count ≤ settings.stepLimit,
        ((step settings.signRule program).times count).LeadsTo machine last ∧
          count ≤ program.size * (backJumps settings.signRule program count machine + 1)
  /-- A run that is cut short has jumped back often enough to explain its length. -/
  exceeds_after_jumps : ∀ (keep : ExecutionEvent → Bool) (machine : Machine) (index limit : Nat),
    (run settings program keep machine).result = .error (.stepLimitExceeded index limit) →
      settings.stepLimit <
        program.size * (backJumps settings.signRule program settings.stepLimit machine + 1)
  ends_within_size : program.OnlyAhead → ∀ machine : Machine, machine.ip ≤ program.size →
    (∃ count ≤ program.size, ∃ last,
        ((step settings.signRule program).times count).LeadsTo machine last ∧
          last.ip = program.size) ∨
      ∃ count < program.size, ∃ middle,
        ((step settings.signRule program).times count).LeadsTo machine middle ∧
          middle.ip < program.size ∧
          ∃ fault, (step settings.signRule program middle).result = .error fault
  never_exceeds : program.OnlyAhead → program.size ≤ settings.stepLimit →
    ∀ (keep : ExecutionEvent → Bool) (machine : Machine) (index limit : Nat),
      (run settings program keep machine).result ≠ .error (.stepLimitExceeded index limit)

theorem progress_bound (settings : RunSettings) (program : Program) :
    ProgressBound settings program where
  step_moves := by
    intro machine last _ stepped
    exact step_advances_or_jumpsBack stepped
  steps_bounded := by
    intro machine last count start stepped
    exact steps_le start stepped
  halts_after_jumps := by
    intro keep machine last start halts
    obtain ⟨count, few, reached, _⟩ := (run_leadsTo_iff start).mp halts
    exact ⟨count, few, reached, steps_le start reached⟩
  exceeds_after_jumps := by
    intro keep machine index limit exceeded
    exact stepLimit_lt_of_exceeded exceeded
  ends_within_size := by
    intro ahead machine start
    exact ends_of_onlyAhead ahead settings.signRule start
  never_exceeds := by
    intro ahead enough keep machine index limit exceeded
    have short := stepLimit_lt_of_exceeded exceeded
    rw [backJumps_of_onlyAhead ahead] at short
    omega

end Execution
end Mini8086
