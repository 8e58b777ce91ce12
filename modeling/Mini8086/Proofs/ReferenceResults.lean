import Mathlib
import Mini8086.Proofs.ExecuteStages

/-!
# Results as numbers

What a data operation computes, in whole numbers: operands have numbers, an operation adds or
subtracts them, and the result is what is left of that modulo the width of the destination.  Main
statement, `Instruction.execute_reference`: an execution fails with its first fault in a fixed
order, or its flags and its destination reflect that result.
-/

set_option autoImplicit false

namespace Mini8086

/-! ## Numbers of operands -/

def Width.bits : Width → Nat
  | .byte => 8
  | .word => 16

/-- The number in memory from an address on, low byte first. -/
def Memory.numberAt {size : Nat} (memory : Memory size) (address : Nat) : Width → Nat
  | .byte => (memory.byteAt address).toNat
  | .word => (memory.byteAt address).toNat + 256 * (memory.byteAt (address + 1)).toNat

/-- The address of a place that depends on no register; it wraps at the end of the address space. -/
def MemoryOperand.start? (place : MemoryOperand) : Option Nat :=
  match place.address with
  | .direct address => some ((address.toNat + place.displacement.toInt) % 65536).toNat
  | .based _ => none

namespace Machine

/-- The number in a register; a byte register is one half of its parent. -/
def registerNumber (machine : Machine) : Register → Nat
  | .word register => (machine.registers.get register).toNat
  | .byte register =>
    match register.half with
    | .low => (machine.registers.get register.parent).toNat % 256
    | .high => (machine.registers.get register.parent).toNat / 256

/-- The number that an operand stands for, if it can be read.  An immediate one may be larger than
its width allows. -/
def number? (machine : Machine) : Operand → Option Nat
  | .register register => some (machine.registerNumber register)
  | .memory place => do
    let address ← place.start?
    if address + place.width.bytes ≤ memorySize then
      some (machine.memory.numberAt address place.width)
    else
      none
  | .immediate constant => some constant.value.toNat
  | .relative _ => none

end Machine

theorem Word.toNat_toUInt16 (value : Int16) :
    value.toUInt16.toNat = (value.toInt % 65536).toNat := by
  have word : value.toUInt16.toNat = value.toBitVec.toNat := rfl
  have signed : value.toInt = value.toBitVec.toInt := rfl
  have small : value.toBitVec.toNat < 65536 := value.toBitVec.isLt
  rw [word, signed, BitVec.toInt_eq_toNat_cond]
  split <;> omega

theorem MemoryOperand.start?_eq (place : MemoryOperand) :
    place.start? = place.absolute?.map UInt16.toNat := by
  unfold start? absolute?
  cases place.address with
  | based base => rfl
  | direct address =>
    simp only [Option.map_some, UInt16.toNat_add, Word.toNat_toUInt16, Option.some.injEq]
    omega

theorem Memory.toNat_valueAt {size : Nat} (memory : Memory size) (address : Nat) (width : Width) :
    (memory.valueAt address width).toNat = memory.numberAt address width := by
  cases width with
  | byte => exact UInt8.toNat_toUInt16 _
  | word => exact Word.toNat_ofBytes _ _

namespace Machine

variable {machine : Machine}

theorem toNat_read (machine : Machine) (register : Register) :
    (machine.registers.read register).toNat = machine.registerNumber register := by
  cases register with
  | word register => rfl
  | byte register => exact machine.registers.toNat_read_byte register

theorem number?_of_readable {operand : Operand} {index : Nat}
    (readable : operand.readFault? index = none) :
    machine.number? operand = some (machine.valueOf operand).toNat := by
  cases operand with
  | register register => simp only [number?, valueOf, toNat_read]
  | immediate constant => rfl
  | relative displacement => cases readable
  | memory place =>
    obtain ⟨address, found, fits⟩ := place.fits_of_no_fault readable
    simp [number?, valueOf, MemoryOperand.start?_eq, found, fits, Memory.toNat_valueAt]

theorem number?_of_fault {operand : Operand} {index : Nat} {fault : Fault}
    (failed : operand.readFault? index = some fault) : machine.number? operand = none := by
  cases operand with
  | register register => cases failed
  | immediate constant => cases failed
  | relative displacement => rfl
  | memory place =>
    simp only [Operand.readFault?, MemoryOperand.fault?] at failed
    simp only [number?, MemoryOperand.start?_eq]
    cases found : place.absolute? with
    | none => rfl
    | some address =>
      simp only [found] at failed
      split at failed
      · cases failed
      · next outside =>
        simp [outside]

theorem number?_eq_read (machine : Machine) (operand : Operand) :
    machine.number? operand =
      (Execution.read operand machine).result.toOption.map UInt16.toNat := by
  rw [Execution.read_apply]
  cases found : operand.readFault? machine.ip with
  | none => exact number?_of_readable found
  | some fault => exact number?_of_fault found

end Machine

/-! ## Results and flags -/

/-- What an operation makes of two numbers, before it is cut to a width. -/
def Arithmetic.exact (operation : Arithmetic) (left right : Nat) : Int :=
  match operation with
  | .add => left + right
  | .sub | .cmp => left - right

def SignRule.signOf (rule : SignRule) (width : Width) (result : Nat) : Bool :=
  match rule with
  | .nonZero => result ≠ 0
  | .highBit => result.testBit (width.bits - 1)

structure Flags.Reflect (rule : SignRule) (width : Width) (result : Nat) (flags : Flags) :
    Prop where
  zero : flags.zero = decide (result = 0)
  sign : flags.sign = rule.signOf width result

theorem Width.toNat_truncate (width : Width) (value : UInt16) :
    (width.truncate value).toNat = value.toNat % 2 ^ width.bits := by
  have small : value.toNat < 65536 := value.toNat_lt
  cases width with
  | byte => exact toNat_truncate_byte value
  | word => exact (Nat.mod_eq_of_lt small).symm

theorem Arithmetic.toNat_truncate_apply (operation : Arithmetic) (width : Width)
    (left right : UInt16) :
    (width.truncate (operation.apply left right)).toNat =
      (operation.exact left.toNat right.toNat % 2 ^ width.bits).toNat := by
  -- Both moduli of a width divide the modulus of the words that the operation wraps at.
  have leftSmall : left.toNat < 65536 := left.toNat_lt
  have rightSmall : right.toNat < 65536 := right.toNat_lt
  rw [Width.toNat_truncate]
  cases operation with
  | add =>
    simp only [Arithmetic.apply, Arithmetic.exact, UInt16.toNat_add]
    cases width <;> simp only [Width.bits] <;> omega
  | sub =>
    simp only [Arithmetic.apply, Arithmetic.exact, UInt16.toNat_sub]
    cases width <;> simp only [Width.bits] <;> omega
  | cmp =>
    simp only [Arithmetic.apply, Arithmetic.exact, UInt16.toNat_sub]
    cases width <;> simp only [Width.bits] <;> omega

theorem Flags.reflect_ofResult (rule : SignRule) (value : UInt16) (width : Width) :
    Flags.Reflect rule width value.toNat (.ofResult rule value width) := by
  have zero : (value == 0) = decide (value.toNat = 0) := by
    rw [beq_eq_decide, decide_eq_decide, ← UInt16.toNat_inj]
    rfl
  refine ⟨zero, ?_⟩
  cases rule with
  | nonZero => simp [Flags.ofResult, SignRule.sign, SignRule.signOf, bne, zero]
  | highBit => cases width <;> rfl

/-! ## Reading back what was written -/

theorem Width.truncate_truncate (width : Width) (value : UInt16) :
    width.truncate (width.truncate value) = width.truncate value := by
  apply UInt16.toNat_inj.mp
  rw [toNat_truncate, toNat_truncate, Nat.mod_mod]

theorem Memory.valueAt_overwrite {size : Nat} (cells : Vector UInt8 size) (counts : AccessCounts)
    (address : Nat) (width : Width) (value : UInt16) (fits : address + width.bytes ≤ size) :
    Memory.valueAt ⟨Memory.overwrite cells address (width.encode value), counts⟩ address width =
      width.truncate value := by
  rw [← width.length_encode value] at fits
  have written := Memory.byteAt_overwrite cells counts address (width.encode value) fits
  apply UInt16.toNat_inj.mp
  rw [Memory.toNat_valueAt, Width.toNat_truncate]
  cases width with
  | byte =>
    simp only [Memory.numberAt, written]
    simp [Width.encode, Width.bits, Word.toNat_low]
  | word =>
    have small : value.toNat < 65536 := value.toNat_lt
    simp only [Memory.numberAt, written]
    simp [Width.encode, Width.bits, Word.bytes, Word.toNat_low, Word.toNat_high]
    omega

theorem Machine.valueOf_flags (machine : Machine) (flags : Flags) (operand : Operand) :
    { machine with flags }.valueOf operand = machine.valueOf operand := by
  cases operand <;> rfl

namespace Operand

variable {operand : Operand} {index : Nat}

theorem readable_of_writable (writable : operand.writeFault? index = none) :
    operand.readFault? index = none := by
  cases operand with
  | register register => rfl
  | memory place => exact writable
  | immediate constant => rfl
  | relative displacement => cases writable

theorem valueOf_storing_self (machine : Machine) (writable : operand.writeFault? index = none)
    (value : UInt16) :
    (machine.storing operand value).valueOf operand = operand.workingWidth.truncate value := by
  cases operand with
  | register register => exact machine.registers.read_write_self register value
  | immediate constant => cases writable
  | relative displacement => cases writable
  | memory place =>
    obtain ⟨address, found, fits⟩ := place.fits_of_no_fault writable
    simp only [Machine.valueOf, Machine.storing, found]
    exact Memory.valueAt_overwrite _ _ _ _ _ fits

end Operand

/-! ## Executions -/

namespace Instruction

def sourceFault? (instruction : Instruction) (index : Nat) : Option Fault :=
  match instruction.source with
  | some source => source.readFault? index
  | none => some (.missingOperand index instruction.mnemonic)

/-- The first fault of a data operation: an arithmetic one reads its destination, then any of them
reads its source, and all but a comparison write their destination. -/
def orderedFault? (instruction : Instruction) (operation : DataOperation) (index : Nat) :
    Option Fault :=
  let source := instruction.sourceFault? index
  let read := instruction.destination.readFault? index
  let written := instruction.destination.writeFault? index
  match operation with
  | .mov => source.or written
  | .arithmetic .add | .arithmetic .sub => (read.or source).or written
  | .arithmetic .cmp => read.or source

def reference? (instruction : Instruction) (operation : DataOperation) (machine : Machine) :
    Option Nat := do
  let right ← instruction.source.bind machine.number?
  match operation with
  | .mov => some (right % 2 ^ instruction.workingWidth.bits)
  | .arithmetic operation =>
    let left ← machine.number? instruction.destination
    some (operation.exact left right % 2 ^ instruction.workingWidth.bits).toNat

variable {instruction : Instruction} {operation : DataOperation} {index : Nat}

theorem orderedFault?_eq (named : instruction.mnemonic = .data operation) (index : Nat) :
    instruction.orderedFault? operation index = instruction.fault? index := by
  have source : instruction.sourceStage.fault? index = instruction.sourceFault? index := by
    unfold sourceStage sourceFault?
    cases instruction.source <;> rfl
  rw [fault?, stages_of_data named]
  rcases operation with _ | _ | _ | _ <;>
    simp [orderedFault?, DataOperation.destinationStages, resultStages, DataOperation.stores,
      Arithmetic.stores, source, Option.or_assoc]

theorem number?_source (machine : Machine) (given : instruction.sourceFault? index = none) :
    instruction.source.bind machine.number? = some (instruction.sourceValue machine).toNat := by
  unfold sourceFault? at given
  unfold sourceValue
  cases found : instruction.source with
  | none =>
    rw [found] at given
    cases given
  | some source =>
    rw [found] at given
    exact Machine.number?_of_readable given

/-- Without a fault, the result is the one that the numbers of the operands have. -/
theorem reference?_of_no_fault (machine : Machine)
    (fine : instruction.orderedFault? operation index = none) :
    instruction.reference? operation machine =
      some (instruction.result operation machine).toNat := by
  cases operation with
  | mov =>
    have given := (Option.or_eq_none_iff.mp fine).1
    simp [reference?, result, number?_source machine given, Width.toNat_truncate]
  | arithmetic operation =>
    have operands : instruction.destination.readFault? index = none ∧
        instruction.sourceFault? index = none := by
      cases operation with
      | add => exact Option.or_eq_none_iff.mp (Option.or_eq_none_iff.mp fine).1
      | sub => exact Option.or_eq_none_iff.mp (Option.or_eq_none_iff.mp fine).1
      | cmp => exact Option.or_eq_none_iff.mp fine
    obtain ⟨readable, given⟩ := operands
    simp [reference?, result, number?_source machine given,
      Machine.number?_of_readable readable, Arithmetic.toNat_truncate_apply]

theorem reflect_execute (rule : SignRule) (machine : Machine)
    (named : instruction.mnemonic = .data operation)
    (fine : instruction.orderedFault? operation machine.ip = none) :
    Flags.Reflect rule instruction.workingWidth (instruction.result operation machine).toNat
      (instruction.execute rule machine).state.flags := by
  rw [orderedFault?_eq named] at fine
  rw [execute_of_no_fault rule fine, Machine.flags_counting, effect_of_data rule named]
  exact Flags.reflect_ofResult _ _ _

theorem number?_execute (rule : SignRule) (machine : Machine)
    (named : instruction.mnemonic = .data operation)
    (fine : instruction.orderedFault? operation machine.ip = none)
    (writes : operation ≠ .arithmetic .cmp) :
    (instruction.execute rule machine).state.number? instruction.destination =
      some (instruction.result operation machine).toNat := by
  have stores := DataOperation.stores_iff.mpr writes
  rw [orderedFault?_eq named] at fine
  have writable := writable_of_stores named stores fine
  rw [Machine.number?_of_readable (Operand.readable_of_writable writable),
    execute_of_no_fault rule fine, Machine.valueOf_counting, effect_of_data rule named, finished,
    stores, if_pos rfl, Machine.valueOf_flags, Operand.valueOf_storing_self machine writable]
  exact congrArg (fun value => some value.toNat) (Width.truncate_truncate _ _)

/-- What executing a data instruction comes to, in numbers. -/
structure ReferenceExecution (rule : SignRule) (operation : DataOperation)
    (instruction : Instruction) (machine : Machine) : Prop where
  reads : ∀ operand, machine.number? operand =
    (Execution.read operand machine).result.toOption.map UInt16.toNat
  fails_iff : ∀ fault, (instruction.execute rule machine).result = .error fault ↔
    instruction.orderedFault? operation machine.ip = some fault
  succeeds : instruction.orderedFault? operation machine.ip = none →
    ∃ result, instruction.reference? operation machine = some result ∧
      (instruction.execute rule machine).result = .ok 0 ∧
      Flags.Reflect rule instruction.workingWidth result
        (instruction.execute rule machine).state.flags ∧
      (operation ≠ .arithmetic .cmp →
        (instruction.execute rule machine).state.number? instruction.destination = some result)

theorem execute_reference (rule : SignRule) (operation : DataOperation) (destination : Operand)
    (source : Option Operand) (length : Nat) (machine : Machine) :
    ReferenceExecution rule operation ⟨.data operation, destination, source, length⟩ machine where
  reads := by
    intro operand
    exact machine.number?_eq_read operand
  fails_iff := by
    intro fault
    rw [result_execute_eq_error_iff, orderedFault?_eq rfl]
  succeeds := by
    intro fine
    refine ⟨_, reference?_of_no_fault machine fine, ?_, reflect_execute rule machine rfl fine,
      number?_execute rule machine rfl fine⟩
    rw [orderedFault?_eq rfl] at fine
    exact (result_execute_eq_ok_iff rule).mpr ⟨fine, rfl⟩

end Instruction

end Mini8086
