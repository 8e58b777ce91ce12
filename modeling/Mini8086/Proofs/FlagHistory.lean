import Mini8086.Proofs.Atomicity
import Mini8086.Proofs.ReferenceResults

/-!
# What the flags remember

Only a data instruction that is completed sets the flags, and it sets both of them.  Main statement,
`Execution.flags_follow_last`: whatever was executed, the flags are those of the last data
instruction that was completed, or the ones from the start if there was none; so they are never
both set unless a machine starts that way.
-/

set_option autoImplicit false

namespace Mini8086

/-! ## Histories -/

structure Occurrence where
  instruction : Instruction
  machine : Machine

def Instruction.isData (instruction : Instruction) : Bool :=
  match instruction.mnemonic with
  | .data _ => true
  | .branch _ => false

def Occurrence.Sets (rule : SignRule) (occurrence : Occurrence) (flags : Flags) : Prop :=
  ∃ operation result, occurrence.instruction.mnemonic = .data operation ∧
    occurrence.instruction.reference? operation occurrence.machine = some result ∧
    flags.Reflect rule occurrence.instruction.workingWidth result

/-- The flags after data instructions, oldest first, have been completed: those of the last one, or
the flags at the start if there is none. -/
def Flags.FollowFrom (rule : SignRule) (start : Flags) (completed : List Occurrence)
    (flags : Flags) : Prop :=
  match completed.getLast? with
  | none => flags = start
  | some last => last.Sets rule flags

namespace Flags.FollowFrom

variable {rule : SignRule} {start middle flags : Flags}

theorem append {earlier later : List Occurrence} (first : FollowFrom rule start earlier middle)
    (others : FollowFrom rule middle later flags) :
    FollowFrom rule start (earlier ++ later) flags := by
  unfold FollowFrom at others ⊢
  rw [List.getLast?_append]
  cases found : later.getLast? with
  | some last =>
    rw [found] at others
    exact others
  | none =>
    rw [found] at others
    subst others
    exact first

end Flags.FollowFrom

/-! ## Actions -/

/-- A single thing that a machine is made to do, with its program changed at will. -/
inductive Action where
  | execute (instruction : Instruction)
  | step (program : Program)

namespace Action

def instruction? (machine : Machine) : Action → Option Instruction
  | .execute instruction => some instruction
  | .step program => program[machine.ip]?

/-- The machine afterwards, whether the action failed or not. -/
def after (rule : SignRule) (machine : Machine) : Action → Machine
  | .execute instruction => (instruction.execute rule machine).state
  | .step program => (Execution.step rule program machine).state

def completed (rule : SignRule) (machine : Machine) (action : Action) : List Occurrence :=
  match action.instruction? machine with
  | some instruction =>
    if instruction.isData ∧ (instruction.execute rule machine).result.isOk then
      [⟨instruction, machine⟩]
    else
      []
  | none => []

def afterAll (rule : SignRule) : List Action → Machine → Machine
  | [], machine => machine
  | action :: others, machine => afterAll rule others (action.after rule machine)

def completedAll (rule : SignRule) : List Action → Machine → List Occurrence
  | [], _ => []
  | action :: others, machine =>
    action.completed rule machine ++ completedAll rule others (action.after rule machine)

end Action

def Execution.executedData (rule : SignRule) (program : Program) : Nat → Machine → List Occurrence
  | 0, _ => []
  | count + 1, machine =>
    ((program[machine.ip]?.filter Instruction.isData).map (⟨·, machine⟩)).toList ++
      executedData rule program count (step rule program machine).state

/-! ## One execution -/

section Execute

variable (rule : SignRule) {instruction : Instruction} {machine : Machine}

theorem Instruction.isData_iff :
    instruction.isData ↔ ∃ operation, instruction.mnemonic = .data operation := by
  unfold isData
  cases instruction.mnemonic <;> simp

theorem Instruction.sets_of_completed (data : instruction.isData)
    (completed : (instruction.execute rule machine).result.isOk) :
    Occurrence.Sets rule ⟨instruction, machine⟩ (instruction.execute rule machine).state.flags := by
  obtain ⟨operation, named⟩ := isData_iff.mp data
  cases found : instruction.orderedFault? operation machine.ip with
  | none =>
    exact ⟨operation, _, named, reference?_of_no_fault machine found,
      reflect_execute rule machine named found⟩
  | some fault =>
    rw [orderedFault?_eq named] at found
    rw [(result_execute_eq_error_iff rule).mpr found] at completed
    cases completed

theorem Instruction.flags_of_not_completed
    (not : ¬ (instruction.isData ∧ (instruction.execute rule machine).result.isOk)) :
    (instruction.execute rule machine).state.flags = machine.flags := by
  cases named : instruction.mnemonic with
  | branch jump => rw [Execution.state_execute_of_branch rule named]
  | data operation =>
    cases found : instruction.fault? machine.ip with
    | some fault => rw [execute_of_fault rule found, Machine.flags_counting]
    | none =>
      have data : instruction.isData := isData_iff.mpr ⟨operation, named⟩
      exact absurd ⟨data, by rw [execute_of_no_fault rule found]; rfl⟩ not

end Execute

/-! ## Actions and steps -/

namespace Execution

/-- Where a step leads, and whether it leads anywhere, plays no part for the flags. -/
theorem flags_step (rule : SignRule) {program : Program} {machine : Machine}
    {instruction : Instruction} (found : program[machine.ip]? = some instruction) :
    (step rule program machine).state.flags =
      (instruction.execute rule machine).state.flags := by
  rw [step_of_some found]
  obtain ⟨_ | offset, state, events⟩ := instruction.execute rule machine
  · rfl
  · cases aimed : target program machine.ip offset with
    | error fault => simp only [aimed]
    | ok next =>
      simp only [aimed]
      rfl

end Execution

namespace Action

variable (rule : SignRule)

/-- An action sets the flags to those of the data instruction that it completes, or not at all. -/
theorem followFrom_after (machine : Machine) (action : Action) :
    Flags.FollowFrom rule machine.flags (action.completed rule machine)
      (action.after rule machine).flags := by
  have executed : ∀ instruction ∈ action.instruction? machine,
      (action.after rule machine).flags = (instruction.execute rule machine).state.flags := by
    intro instruction found
    cases action with
    | execute given =>
      cases found
      rfl
    | step program => exact Execution.flags_step rule found
  unfold completed
  cases found : action.instruction? machine with
  | none =>
    cases action with
    | execute given => cases found
    | step program =>
      simp only [after, Execution.step_of_none found]
      exact rfl
  | some instruction =>
    rw [executed instruction found]
    by_cases completes : instruction.isData ∧ (instruction.execute rule machine).result.isOk
    · simp only [if_pos completes]
      exact instruction.sets_of_completed rule completes.1 completes.2
    · simp only [if_neg completes]
      exact Instruction.flags_of_not_completed rule completes

theorem followFrom_afterAll (actions : List Action) (machine : Machine) :
    Flags.FollowFrom rule machine.flags (completedAll rule actions machine)
      (afterAll rule actions machine).flags := by
  induction actions generalizing machine with
  | nil => exact rfl
  | cons action others ih =>
    exact (action.followFrom_after rule machine).append (ih (action.after rule machine))

end Action

namespace Execution

variable {rule : SignRule} {program : Program}

theorem completed_step {machine next : Machine}
    (stepped : (step rule program).LeadsTo machine next) :
    (Action.step program).completed rule machine =
      ((program[machine.ip]?.filter Instruction.isData).map (⟨·, machine⟩)).toList := by
  obtain ⟨instruction, offset, _, found, executed, _⟩ := executed_of_step stepped
  have fine : (instruction.execute rule machine).result.isOk := by
    rw [executed]
    rfl
  rw [Action.completed, Action.instruction?, found, Option.filter_some]
  by_cases data : instruction.isData
  · simp [data, fine]
  · simp [data]

theorem followFrom_steps {count : Nat} {machine last : Machine}
    (stepped : ((step rule program).times count).LeadsTo machine last) :
    Flags.FollowFrom rule machine.flags (executedData rule program count machine) last.flags := by
  induction count generalizing machine with
  | zero =>
    rw [Transition.times_zero_leadsTo_iff] at stepped
    exact congrArg Machine.flags stepped.symm
  | succ count ih =>
    obtain ⟨next, first, others⟩ := Transition.times_succ_leadsTo_iff.mp stepped
    have now := (Action.step program).followFrom_after rule machine
    rw [completed_step first] at now
    rw [executedData, first.2]
    simp only [Action.after, first.2] at now
    exact now.append (ih others)

end Execution

/-! ## Both flags at once -/

theorem Flags.Reflect.ne_both {rule : SignRule} {width : Width} {result : Nat} {flags : Flags}
    (reflect : flags.Reflect rule width result) : flags ≠ ⟨true, true⟩ := by
  rintro rfl
  have zero : result = 0 := of_decide_eq_true reflect.zero.symm
  have sign := reflect.sign
  subst zero
  cases rule with
  | nonZero => cases sign
  | highBit => simp [SignRule.signOf] at sign

theorem Flags.Reflect.sign_eq_not_zero {width : Width} {result : Nat} {flags : Flags}
    (reflect : flags.Reflect .nonZero width result) : flags.sign = !flags.zero := by
  rw [reflect.sign, reflect.zero, SignRule.signOf, decide_not]

namespace Flags.FollowFrom

variable {rule : SignRule} {start flags : Flags} {completed : List Occurrence}

theorem ne_both (follow : FollowFrom rule start completed flags)
    (initially : start ≠ ⟨true, true⟩) :
    flags ≠ ⟨true, true⟩ := by
  unfold FollowFrom at follow
  cases found : completed.getLast? with
  | none =>
    rw [found] at follow
    rwa [follow]
  | some last =>
    rw [found] at follow
    obtain ⟨_, _, _, _, reflect⟩ := follow
    exact reflect.ne_both

theorem sign_eq_not_zero (follow : FollowFrom .nonZero start completed flags)
    (some : completed ≠ []) : flags.sign = !flags.zero := by
  unfold FollowFrom at follow
  rw [List.getLast?_eq_some_getLast some] at follow
  obtain ⟨_, _, _, _, reflect⟩ := follow
  exact reflect.sign_eq_not_zero

end Flags.FollowFrom

/-! ## The last data instruction -/

namespace Execution

/-- How the flags of a machine come about, where `rule` derives the sign flag. -/
structure FlagHistory (rule : SignRule) : Prop where
  after_steps : ∀ (program : Program) (machine last : Machine) (count : Nat),
    ((step rule program).times count).LeadsTo machine last →
      Flags.FollowFrom rule machine.flags (executedData rule program count machine) last.flags
  after_actions : ∀ (actions : List Action) (machine : Machine),
    Flags.FollowFrom rule machine.flags (Action.completedAll rule actions machine)
      (Action.afterAll rule actions machine).flags
  never_both : ∀ actions : List Action,
    (Action.afterAll rule actions .initial).flags ≠ ⟨true, true⟩
  opposite : rule = .nonZero → ∀ (actions : List Action) (machine : Machine),
    Action.completedAll rule actions machine ≠ [] →
      (Action.afterAll rule actions machine).flags.sign =
        !(Action.afterAll rule actions machine).flags.zero

theorem flags_follow_last (rule : SignRule) : FlagHistory rule where
  after_steps := by
    intro program machine last count stepped
    exact followFrom_steps stepped
  after_actions := by
    intro actions machine
    exact Action.followFrom_afterAll rule actions machine
  never_both := by
    intro actions
    exact (Action.followFrom_afterAll rule actions .initial).ne_both (by decide)
  opposite := by
    rintro rfl actions machine completed
    exact (Action.followFrom_afterAll .nonZero actions machine).sign_eq_not_zero completed

end Execution
end Mini8086
