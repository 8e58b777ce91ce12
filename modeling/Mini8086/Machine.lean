import Mini8086.Instruction
import Mini8086.Jump
import Mini8086.Memory

/-!
# The machine

Registers, two flags, 64 KiB of memory, and the index of the next instruction, which counts
instructions of a program and is no address.  A machine that cannot go on says why in a fault, which
names the instruction at which it arose.  What it reports while it runs are events; they carry the
values that they tell about, and the text is made from them when somebody reads the journal.
-/

set_option autoImplicit false

namespace Mini8086

/-- What the last data operation left behind. -/
structure Flags where
  zero : Bool := false
  sign : Bool := false
  deriving DecidableEq

def memorySize : Nat := 65536

structure Machine where
  registers : Registers
  flags : Flags
  memory : Memory memorySize
  /-- The index of the next instruction. -/
  ip : Nat

def Flags.text (flags : Flags) : String :=
  (if flags.zero then "Z" else "-") ++ (if flags.sign then "S" else "-")

namespace Machine

def initial : Machine where
  registers := .zero
  flags := {}
  memory := .zero memorySize
  ip := 0

def sameState (left right : Machine) : Bool :=
  left.registers == right.registers && left.flags == right.flags &&
    left.memory.sameContents right.memory && left.ip == right.ip

/-- The state for a reader: the registers, one a line, the instruction index and the flags. -/
def text (machine : Machine) : String :=
  let line := fun (cell : WordRegister × UInt16) =>
    cell.1.name ++ ": " ++ Numeral.hex 4 cell.2.toNat ++ " (" ++ cell.2.toNat.repr ++ ")\n"
  String.join (machine.registers.toList.map line) ++
    "ip: " ++ machine.ip.repr ++ "\n" ++
    "flags: " ++ machine.flags.text

def summary (machine : Machine) : String :=
  let truth := fun (flag : Bool) => if flag then "true" else "false"
  "MachineState \x7b registers: " ++ machine.registers.text ++
    ", flags: Flags \x7b zero: " ++ truth machine.flags.zero ++
    ", sign: " ++ truth machine.flags.sign ++
    " \x7d, memory: " ++ machine.memory.text ++
    ", ip: " ++ machine.ip.repr ++ " \x7d"

end Machine

/-! ## Faults -/

inductive Fault where
  /-- A jump has no target, or there is no instruction to execute. -/
  | invalidJumpTarget (index : Nat) (cause : JumpError)
  /-- The operand has no value to read, or is no place to write to. -/
  | unresolvableOperand (index : Nat) (operand : Operand)
  | missingOperand (index : Nat) (mnemonic : Mnemonic)
  | memory (index : Nat) (cause : OutOfRange)
  | stepLimitExceeded (index limit : Nat)
  deriving DecidableEq

namespace Fault

def message : Fault → String
  | .invalidJumpTarget index _ => "instruction " ++ index.repr ++ ": invalid jump target"
  | .unresolvableOperand index operand =>
    "instruction " ++ index.repr ++ ": operand `" ++ operand.text ++ "` cannot be resolved"
  | .missingOperand index mnemonic =>
    "instruction " ++ index.repr ++ ": `" ++ mnemonic.name ++ "` is missing its source operand"
  | .memory index _ => "instruction " ++ index.repr ++ ": memory access failed"
  | .stepLimitExceeded index limit =>
    "instruction " ++ index.repr ++ ": step limit of " ++ limit.repr ++ " exceeded"

def causeMessage? : Fault → Option String
  | .invalidJumpTarget _ cause => some cause.message
  | .memory _ cause => some cause.message
  | .unresolvableOperand .. | .missingOperand .. | .stepLimitExceeded .. => none

end Fault

/-! ## The journal of execution -/

inductive ExecutionEvent where
  | accessed (access : Access)
  /-- A value was moved; the flags are those after it. -/
  | moved (ip : Nat) (instruction : Instruction) (result : UInt16) (flags : Flags)
  | computed (ip : Nat) (instruction : Instruction) (before result : UInt16) (flags : Flags)
  /-- A jump looked at the zero flag and goes on at a distance, or not at all. -/
  | tested (ip : Nat) (instruction : Instruction) (zero : Bool) (offset : Int)
  /-- A jump or loop that does nothing was passed over. -/
  | skipped (ip : Nat) (jump : Branch)
  | advanced (ip next : Nat)
  | started (instructions : Nat)
  | halted (steps : Nat)
  deriving DecidableEq

namespace ExecutionEvent

def level : ExecutionEvent → Level
  | .accessed access => access.level
  | .moved .. | .computed .. | .tested .. => .debug
  | .skipped .. => .warn
  | .advanced .. => .trace
  | .started _ | .halted _ => .info

def message : ExecutionEvent → String
  | .accessed access => access.message
  | .moved ip instruction result flags =>
    "ip " ++ ip.repr ++ " | " ++ instruction.text ++ " | " ++ instruction.destination.text ++
      " <- " ++ Numeral.hex 4 result.toNat ++ " | flags " ++ flags.text
  | .computed ip instruction before result flags =>
    "ip " ++ ip.repr ++ " | " ++ instruction.text ++ " | " ++ instruction.destination.text ++
      ": " ++ Numeral.hex 4 before.toNat ++ " -> " ++ Numeral.hex 4 result.toNat ++
      " | flags " ++ flags.text
  | .tested ip instruction zero offset =>
    "ip " ++ ip.repr ++ " | " ++ instruction.text ++ " | zf=" ++ Numeral.bit zero ++
      " -> offset " ++ offset.repr
  | .skipped ip jump =>
    "ip " ++ ip.repr ++ " | " ++ jump.name ++ " has no execution semantics, skipping"
  | .advanced ip next => "ip " ++ ip.repr ++ " -> " ++ next.repr
  | .started instructions => "running program of " ++ instructions.repr ++ " instructions"
  | .halted steps => "halted after " ++ steps.repr ++ " steps"

end ExecutionEvent

end Mini8086
