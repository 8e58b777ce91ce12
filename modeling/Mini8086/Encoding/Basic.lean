import Mini8086.Encoding.Operand
import Mini8086.Encoding.Opcode

/-!
# Instruction encodings

An encoding is the content of an instruction's bytes, field by field. `bytes` writes it, `read`
takes it off the front of a byte string, and `instruction` says what it means. Two encodings may
mean the same instruction; the bytes determine the encoding.
-/

set_option autoImplicit false

namespace Mini8086

inductive Encoding where
  | immediateToRegister (register : Octal) (data : Data)
  | arithmeticImmediate (operation : Arithmetic) (place : Place) (data : ArithmeticData)
  /-- The spare bit of the opcode and the register field of the second byte mean nothing. -/
  | movImmediate (spare : Bool) (unused : Octal) (place : Place) (data : Data)
  | immediateToAccumulator (operation : Arithmetic) (data : Data)
  | branch (jump : Branch) (displacement : Int8)
  | registerMemory (operation : DataOperation) (toRegister : Bool) (width : Width)
      (register : Octal) (place : Place)
  deriving DecidableEq

namespace Encoding

/-! ## Writing -/

def opcode : Encoding → Opcode
  | .immediateToRegister register data => .immediateToRegister data.width register
  | .arithmeticImmediate _ _ data => .arithmeticImmediate data.sign data.width
  | .movImmediate spare _ _ data => .movImmediate spare data.width
  | .immediateToAccumulator operation data => .immediateToAccumulator operation data.width
  | .branch jump _ => .branch jump
  | .registerMemory operation toRegister width _ _ => .registerMemory operation toRegister width

def placeBytes (register : Octal) (place : Place) : List UInt8 :=
  Fields.byte ⟨place.mode, register, place.rm⟩ :: place.bytes

def operandBytes : Encoding → List UInt8
  | .immediateToRegister _ data => data.bytes
  | .arithmeticImmediate operation place data => placeBytes operation.code place ++ data.bytes
  | .movImmediate _ unused place data => placeBytes unused place ++ data.bytes
  | .immediateToAccumulator _ data => data.bytes
  | .branch _ displacement => [displacement.toUInt8]
  | .registerMemory _ _ _ register place => placeBytes register place

def bytes (encoding : Encoding) : List UInt8 :=
  encoding.opcode.byte :: encoding.operandBytes

def length (encoding : Encoding) : Nat :=
  encoding.bytes.length

/-! ## Reading -/

def readPlace : Reader (Octal × Place) := do
  let fields := Fields.ofByte (← Reader.byte)
  let place ← Place.read fields.mode fields.rm
  return (fields.register, place)

def readOperands : Opcode → Reader Encoding
  | .immediateToRegister width register => do
    let data ← Data.read width
    return .immediateToRegister register data
  | .arithmeticImmediate sign width => do
    let second ← Reader.byte
    let fields := Fields.ofByte second
    match Arithmetic.ofCode? fields.register with
    | none => Reader.refuse (.unsupported 1 second)
    | some operation =>
      let place ← Place.read fields.mode fields.rm
      let data ← ArithmeticData.read sign width
      return .arithmeticImmediate operation place data
  | .movImmediate spare width => do
    let (unused, place) ← readPlace
    let data ← Data.read width
    return .movImmediate spare unused place data
  | .immediateToAccumulator operation width => do
    let data ← Data.read width
    return .immediateToAccumulator operation data
  | .branch jump => do
    let displacement ← Reader.byte
    return .branch jump displacement.toInt8
  | .registerMemory operation toRegister width => do
    let (register, place) ← readPlace
    return .registerMemory operation toRegister width register place

def read : Reader Encoding := do
  let first ← Reader.byte
  match Opcode.ofByte? first with
  | none => Reader.refuse (.unsupported 0 first)
  | some opcode => readOperands opcode

/-! ## Meaning -/

def accumulator (width : Width) : Operand :=
  .register (.ofCode width (Octal.ofNat 0))

def mnemonic : Encoding → Mnemonic
  | .immediateToRegister .. | .movImmediate .. => .mov
  | .arithmeticImmediate operation .. | .immediateToAccumulator operation _ => .arithmetic operation
  | .branch jump _ => .branch jump
  | .registerMemory operation .. => .data operation

def destination : Encoding → Operand
  | .immediateToRegister register data => .register (.ofCode data.width register)
  | .arithmeticImmediate _ place data => place.operand data.width
  | .movImmediate _ _ place data => place.operand data.width
  | .immediateToAccumulator _ data => accumulator data.width
  | .branch _ displacement => .relative displacement
  | .registerMemory _ toRegister width register place =>
    if toRegister then .register (.ofCode width register) else place.operand width

def source? (signExtend : Bool) : Encoding → Option Operand
  | .immediateToRegister _ data | .movImmediate _ _ _ data | .immediateToAccumulator _ data =>
    some (.immediate data.immediate)
  | .arithmeticImmediate _ _ data => some (.immediate (data.immediate signExtend))
  | .branch .. => none
  | .registerMemory _ toRegister width register place =>
    some (if toRegister then place.operand width else .register (.ofCode width register))

def instruction (signExtend : Bool) (encoding : Encoding) : Instruction where
  mnemonic := encoding.mnemonic
  destination := encoding.destination
  source := encoding.source? signExtend
  length := encoding.length

def family (encoding : Encoding) : Family :=
  encoding.opcode.family

end Encoding
end Mini8086
