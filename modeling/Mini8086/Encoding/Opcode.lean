import Mini8086.Word
import Mini8086.Instruction

/-!
# Opcodes

The first byte of an encoding names its family and, bit by bit, the operation, the width, the
direction and a register. Main statement: reading a byte as an opcode undoes writing it, so no two
opcodes share a byte.
-/

set_option autoImplicit false

namespace Mini8086

inductive Opcode where
  /-- `1011 w reg`: a constant into a register. -/
  | immediateToRegister (width : Width) (register : Octal)
  /-- `100000 s w`: arithmetic with a constant; `short` is the sign bit. -/
  | arithmeticImmediate (short : Bool) (width : Width)
  /-- `110001 x w`: a constant into a register or memory; the `spare` bit means nothing. -/
  | movImmediate (spare : Bool) (width : Width)
  /-- `00 op 10 w`: arithmetic on the accumulator with a constant. -/
  | immediateToAccumulator (operation : Arithmetic) (width : Width)
  | branch (jump : Branch)
  /-- `xxxxxx d w`: a register with a register or memory. -/
  | registerMemory (operation : DataOperation) (toRegister : Bool) (width : Width)
  deriving DecidableEq

inductive Family where
  | immediateToRegister
  | immediateToRegisterMemory
  | immediateToAccumulator (operation : Arithmetic)
  | branch
  | registerMemory
  deriving DecidableEq

namespace Arithmetic

def code : Arithmetic → Octal
  | .add => Octal.ofNat 0
  | .sub => Octal.ofNat 5
  | .cmp => Octal.ofNat 7

def ofCode? : Octal → Option Arithmetic
  | 0 => some .add
  | 5 => some .sub
  | 7 => some .cmp
  | _ => none

@[simp]
theorem ofCode?_code (operation : Arithmetic) : ofCode? operation.code = some operation := by
  cases operation <;> rfl

theorem code_of_ofCode? {code : Octal} {operation : Arithmetic}
    (found : ofCode? code = some operation) : operation.code = code := by
  revert code operation
  decide

end Arithmetic

namespace Branch

def byte : Branch → UInt8
  | .jo => 0x70
  | .jno => 0x71
  | .jb => 0x72
  | .jnb => 0x73
  | .je => 0x74
  | .jnz => 0x75
  | .jbe => 0x76
  | .ja => 0x77
  | .js => 0x78
  | .jns => 0x79
  | .jp => 0x7A
  | .jnp => 0x7B
  | .jl => 0x7C
  | .jnl => 0x7D
  | .jle => 0x7E
  | .jg => 0x7F
  | .loopnz => 0xE0
  | .loopz => 0xE1
  | .loop => 0xE2
  | .jcxz => 0xE3

def ofByte? (byte : UInt8) : Option Branch :=
  all.find? fun jump => jump.byte == byte

end Branch

namespace DataOperation

/-- The top six bits of a register/memory opcode. -/
def code : DataOperation → UInt8
  | .arithmetic .add => 0b000000
  | .arithmetic .sub => 0b001010
  | .arithmetic .cmp => 0b001110
  | .mov => 0b100010

def ofCode? (code : UInt8) : Option DataOperation :=
  [.mov, .arithmetic .add, .arithmetic .sub, .arithmetic .cmp].find? fun operation =>
    operation.code == code

end DataOperation

namespace Opcode

def bitValue (flag : Bool) : UInt8 :=
  if flag then 1 else 0

def byte : Opcode → UInt8
  | .immediateToRegister width register =>
    0xB0 + 8 * bitValue width.isWord + UInt8.ofNat register.val
  | .arithmeticImmediate short width => 0x80 + 2 * bitValue short + bitValue width.isWord
  | .movImmediate spare width => 0xC4 + 2 * bitValue spare + bitValue width.isWord
  | .immediateToAccumulator operation width =>
    8 * UInt8.ofNat operation.code.val + 4 + bitValue width.isWord
  | .branch jump => jump.byte
  | .registerMemory operation toRegister width =>
    4 * operation.code + 2 * bitValue toRegister + bitValue width.isWord

def accumulatorOperation? (byte : UInt8) : Option Arithmetic :=
  [Arithmetic.add, .sub, .cmp].find? fun operation =>
    Byte.top byte 7 == 4 * UInt8.ofNat operation.code.val + 2

def ofByte? (byte : UInt8) : Option Opcode :=
  let width := Width.ofBit (Byte.bit byte 0)
  if Byte.top byte 4 == 0b1011 then
    some (.immediateToRegister (.ofBit (Byte.bit byte 3)) (Byte.octal byte 0))
  else if Byte.top byte 6 == 0b100000 then
    some (.arithmeticImmediate (Byte.bit byte 1) width)
  else if Byte.top byte 6 == 0b110001 then
    some (.movImmediate (Byte.bit byte 1) width)
  else if let some operation := accumulatorOperation? byte then
    some (.immediateToAccumulator operation width)
  else if let some jump := Branch.ofByte? byte then
    some (.branch jump)
  else if let some operation := DataOperation.ofCode? (Byte.top byte 6) then
    some (.registerMemory operation (Byte.bit byte 1) width)
  else
    none

def family : Opcode → Family
  | .immediateToRegister .. => .immediateToRegister
  | .arithmeticImmediate .. | .movImmediate .. => .immediateToRegisterMemory
  | .immediateToAccumulator operation _ => .immediateToAccumulator operation
  | .branch _ => .branch
  | .registerMemory .. => .registerMemory

end Opcode

namespace Family

def ofByte? (byte : UInt8) : Option Family :=
  (Opcode.ofByte? byte).map Opcode.family

def name : Family → String
  | .immediateToRegister => "ImmediateToRegister"
  | .immediateToRegisterMemory => "ImmediateToRegisterMemory"
  | .immediateToAccumulator .add => "ImmediateToAccumulator(Add)"
  | .immediateToAccumulator .sub => "ImmediateToAccumulator(Sub)"
  | .immediateToAccumulator .cmp => "ImmediateToAccumulator(Cmp)"
  | .branch => "Branch"
  | .registerMemory => "RegisterMemory"

end Family

/-! ## Reading undoes writing -/

namespace Opcode

@[simp]
theorem ofByte?_byte (opcode : Opcode) : ofByte? opcode.byte = some opcode := by
  cases opcode with
  | immediateToRegister width register =>
    cases width <;> revert register <;> decide
  | arithmeticImmediate short width => cases short <;> cases width <;> decide
  | movImmediate spare width => cases spare <;> cases width <;> decide
  | immediateToAccumulator operation width => cases operation <;> cases width <;> decide
  | branch jump => cases jump <;> decide
  | registerMemory operation toRegister width =>
    cases toRegister <;> cases width <;> rcases operation with _ | (_ | _ | _) <;> decide

/-- Every byte is either refused or written back as it was read. -/
theorem byte_eq_of_ofByte? {byte : UInt8} {opcode : Opcode} (found : ofByte? byte = some opcode) :
    opcode.byte = byte := by
  have every : ∀ byte : UInt8, ∀ opcode ∈ ofByte? byte, opcode.byte = byte :=
    Byte.forall_of_codes (by decide +kernel)
  exact every byte opcode found

end Opcode
end Mini8086
