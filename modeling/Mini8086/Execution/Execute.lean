import Mini8086.Machine

/-!
# Executing one instruction

`Instruction.execute` changes registers, flags and memory and yields the distance of a jump; it
leaves the instruction index alone. A data operation reads its destination (unless it only moves),
then its source, then writes, then sets the flags, and stops at the first of these that fails. Of
the jumps and loops only `jnz` has an effect.
-/

set_option autoImplicit false

namespace Mini8086

inductive SignRule where
  /-- Set for any result that is not zero. -/
  | nonZero
  /-- Set from the result's most significant bit. -/
  | highBit
  deriving DecidableEq

abbrev Execution : Type → Type :=
  Transition Machine Fault ExecutionEvent

def SignRule.sign (rule : SignRule) (value : UInt16) (width : Width) : Bool :=
  match rule, width with
  | .nonZero, _ => value != 0
  | .highBit, .byte => value.toNat.testBit 7
  | .highBit, .word => value.toNat.testBit 15

def Flags.ofResult (rule : SignRule) (value : UInt16) (width : Width) : Flags where
  zero := value == 0
  sign := rule.sign value width

/-- The value that an operation leaves, before it is cut to its width; a comparison subtracts. -/
def Arithmetic.apply (operation : Arithmetic) (left right : UInt16) : UInt16 :=
  match operation with
  | .add => left + right
  | .sub | .cmp => left - right

def Arithmetic.stores : Arithmetic → Bool
  | .add | .sub => true
  | .cmp => false

namespace Execution

/-- Does something to memory, and counts it as done by the instruction at hand. -/
def onMemory {α : Type} (action : MemoryAction memorySize α) : Execution α := fun machine =>
  match machine with
  | ⟨registers, flags, memory, ip⟩ =>
    match action memory with
    | ⟨.ok value, memory, accesses⟩ =>
      ⟨.ok value, ⟨registers, flags, memory, ip⟩, accesses.map .accessed⟩
    | ⟨.error error, memory, accesses⟩ =>
      ⟨.error (.memory ip error), ⟨registers, flags, memory, ip⟩, accesses.map .accessed⟩

def ip : Execution Nat :=
  Transition.inspect Machine.ip

def unresolvable {α : Type} (operand : Operand) : Execution α := do
  let index ← ip
  Transition.fail (.unresolvableOperand index operand)

/-- The address of a memory operand; one that depends on registers is not resolved. -/
def addressOf (place : MemoryOperand) : Execution Nat :=
  match place.absolute? with
  | some address => pure address.toNat
  | none => unresolvable (.memory place)

def read : Operand → Execution UInt16
  | .register register => Transition.inspect fun machine => machine.registers.read register
  | .memory place => do
    let address ← addressOf place
    match place.width with
    | .byte =>
      let byte ← onMemory (Memory.readByte address)
      return byte.toUInt16
    | .word => onMemory (Memory.readWord address)
  | .immediate constant => pure constant.value
  | .relative displacement => unresolvable (.relative displacement)

/-- Writes a value to an operand, as much of it as fits. -/
def write (operand : Operand) (value : UInt16) : Execution Unit :=
  match operand with
  | .register register =>
    Transition.update fun machine =>
      { machine with registers := machine.registers.write register value }
  | .memory place => do
    let address ← addressOf place
    match place.width with
    | .byte => onMemory (Memory.writeByte address (Word.low value))
    | .word => onMemory (Memory.writeWord address value)
  | .immediate _ | .relative _ => unresolvable operand

def setFlags (flags : Flags) : Execution Unit :=
  Transition.update fun machine => { machine with flags }

def sourceOf (instruction : Instruction) : Execution Operand :=
  match instruction.source with
  | some source => pure source
  | none => do
    let index ← ip
    Transition.fail (.missingOperand index instruction.mnemonic)

def move (rule : SignRule) (instruction : Instruction) : Execution Unit := do
  let width := instruction.destination.workingWidth
  let source ← sourceOf instruction
  let value ← read source
  let result := width.truncate value
  write instruction.destination result
  let flags := Flags.ofResult rule result width
  setFlags flags
  let index ← ip
  Transition.report (.moved index instruction result flags)

def compute (rule : SignRule) (operation : Arithmetic) (instruction : Instruction) :
    Execution Unit := do
  let width := instruction.destination.workingWidth
  let before ← read instruction.destination
  let source ← sourceOf instruction
  let operand ← read source
  let result := width.truncate (operation.apply before operand)
  if operation.stores then
    write instruction.destination result
  let flags := Flags.ofResult rule result width
  setFlags flags
  let index ← ip
  Transition.report (.computed index instruction before result flags)

/-- The distance that `jnz` asks for: none when the last result was zero. -/
def jumpUnlessZero (instruction : Instruction) : Execution Int := do
  let zero ← Transition.inspect fun machine => machine.flags.zero
  let distance := (instruction.displacement?.map Int8.toInt).getD 0
  let offset := if zero then 0 else distance
  let index ← ip
  Transition.report (.tested index instruction zero offset)
  return offset

def skip (jump : Branch) : Execution Unit := do
  let index ← ip
  Transition.report (.skipped index jump)

end Execution

open Execution in
/-- Executes one instruction and yields the distance to jump, or 0 to go on behind it. -/
def Instruction.execute (rule : SignRule) (instruction : Instruction) : Execution Int :=
  match instruction.mnemonic with
  | .data .mov => do
    move rule instruction
    return 0
  | .data (.arithmetic operation) => do
    compute rule operation instruction
    return 0
  | .branch .jnz => jumpUnlessZero instruction
  | .branch jump => do
    skip jump
    return 0

end Mini8086
