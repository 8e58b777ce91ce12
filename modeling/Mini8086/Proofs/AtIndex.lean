import Mini8086.Proofs.ExecuteStages

/-!
# Instructions at other indices

The index of a machine names instructions in faults and events and plays no other part in an
execution: at another index the same instruction does the same.
-/

set_option autoImplicit false

namespace Mini8086

def Fault.atIndex (index : Nat) : Fault → Fault
  | .invalidJumpTarget _ cause => .invalidJumpTarget index cause
  | .unresolvableOperand _ operand => .unresolvableOperand index operand
  | .missingOperand _ mnemonic => .missingOperand index mnemonic
  | .memory _ cause => .memory index cause
  | .stepLimitExceeded _ limit => .stepLimitExceeded index limit

theorem Fault.atIndex_atIndex (fault : Fault) (index other : Nat) :
    (fault.atIndex other).atIndex index = fault.atIndex index := by
  cases fault <;> rfl

def Machine.atIndex (machine : Machine) (index : Nat) : Machine :=
  { machine with ip := index }

theorem Machine.valueOf_atIndex (machine : Machine) (index : Nat) (operand : Operand) :
    (machine.atIndex index).valueOf operand = machine.valueOf operand := by
  cases operand <;> rfl

theorem Machine.storing_atIndex (machine : Machine) (index : Nat) (operand : Operand)
    (value : UInt16) :
    (machine.atIndex index).storing operand value =
      (machine.storing operand value).atIndex index := by
  cases operand with
  | memory place =>
    simp only [storing]
    cases place.absolute? <;> rfl
  | register register => rfl
  | immediate constant => rfl
  | relative displacement => rfl

theorem MemoryOperand.fault?_atIndex (place : MemoryOperand) (index other : Nat) :
    place.fault? index = (place.fault? other).map (Fault.atIndex index) := by
  unfold MemoryOperand.fault?
  cases place.absolute? with
  | none => rfl
  | some address =>
    by_cases fits : address.toNat + place.width.bytes ≤ memorySize
    · simp [fits]
    · simp [fits, Fault.atIndex]

theorem Stage.fault?_atIndex (stage : Stage) (index other : Nat) :
    stage.fault? index = (stage.fault? other).map (Fault.atIndex index) := by
  cases stage with
  | missing mnemonic => rfl
  | read operand =>
    cases operand with
    | memory place => exact place.fault?_atIndex index other
    | register register => rfl
    | immediate constant => rfl
    | relative displacement => rfl
  | write operand =>
    cases operand with
    | memory place => exact place.fault?_atIndex index other
    | register register => rfl
    | immediate constant => rfl
    | relative displacement => rfl

namespace Instruction

section Elsewhere

variable (rule : SignRule) (instruction : Instruction) (machine : Machine) (index other : Nat)

theorem fault?_atIndex :
    instruction.fault? index = (instruction.fault? other).map (Fault.atIndex index) := by
  unfold fault? Stage.firstFault?
  induction instruction.stages with
  | nil => rfl
  | cons stage rest ih =>
    simp only [List.findSome?_cons]
    rw [stage.fault?_atIndex index other]
    cases stage.fault? other with
    | some fault => rfl
    | none => exact ih

theorem accesses_eq : instruction.accesses index = instruction.accesses other := by
  have same : ∀ stage : Stage, (stage.fault? index).isNone = (stage.fault? other).isNone := by
    intro stage
    rw [stage.fault?_atIndex index other, Option.isNone_map]
  simp only [accesses, Stage.accessesBefore, same]

theorem sourceValue_atIndex :
    instruction.sourceValue (machine.atIndex index) = instruction.sourceValue machine := by
  unfold sourceValue
  cases instruction.source with
  | none => rfl
  | some source => exact machine.valueOf_atIndex index source

theorem result_atIndex (operation : DataOperation) :
    instruction.result operation (machine.atIndex index) =
      instruction.result operation machine := by
  cases operation with
  | mov => simp only [result, sourceValue_atIndex]
  | arithmetic operation =>
    simp only [result, sourceValue_atIndex, Machine.valueOf_atIndex]

theorem effect_atIndex :
    instruction.effect rule (machine.atIndex index) =
      (instruction.effect rule machine).atIndex index := by
  unfold effect
  split
  · next operation named =>
    rw [result_atIndex, finished]
    cases operation.stores with
    | false => rfl
    | true =>
      rw [if_pos rfl, Machine.storing_atIndex]
      rfl
  · rfl

/-- Where an instruction stands decides only which index its faults and events name. -/
theorem result_execute_atIndex :
    (instruction.execute rule (machine.atIndex index)).result =
      (instruction.execute rule machine).result.mapError (Fault.atIndex index) := by
  have moved := instruction.fault?_atIndex (machine.atIndex index).ip machine.ip
  cases found : instruction.fault? machine.ip with
  | some fault =>
    rw [found] at moved
    rw [execute_of_fault rule found, execute_of_fault rule moved]
    rfl
  | none =>
    rw [found] at moved
    rw [execute_of_no_fault rule found, execute_of_no_fault rule moved]
    rfl

theorem state_execute_atIndex :
    (instruction.execute rule (machine.atIndex index)).state =
      (instruction.execute rule machine).state.atIndex index := by
  have moved := instruction.fault?_atIndex (machine.atIndex index).ip machine.ip
  have same := instruction.accesses_eq (machine.atIndex index).ip machine.ip
  cases found : instruction.fault? machine.ip with
  | some fault =>
    rw [found] at moved
    rw [execute_of_fault rule found, execute_of_fault rule moved, same]
    rfl
  | none =>
    rw [found] at moved
    rw [execute_of_no_fault rule found, execute_of_no_fault rule moved, same, effect_atIndex]
    rfl

end Elsewhere

theorem atIndex_ip_of_execute {rule : SignRule} {instruction : Instruction} {machine : Machine}
    {fault : Fault} (failed : (instruction.execute rule machine).result = .error fault) :
    fault.atIndex machine.ip = fault := by
  have same := instruction.fault?_atIndex machine.ip machine.ip
  rw [(result_execute_eq_error_iff rule).mp failed] at same
  exact (Option.some.inj same).symm

theorem ip_execute (rule : SignRule) (instruction : Instruction) (machine : Machine) :
    (instruction.execute rule machine).state.ip = machine.ip := by
  have moved := congrArg Machine.ip
    (instruction.state_execute_atIndex rule machine machine.ip)
  exact moved

end Instruction
end Mini8086
