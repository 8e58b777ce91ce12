import Mini8086.Decoding.Sweep
import Mini8086.Encoding.Basic

/-!
# Reading instructions

The decoder goes through a byte string from its start and keeps count of the bytes it has taken, so
it knows how long the instruction is and where the input ended.  What it remarks on the way stands
even when it fails later on.  Whether a short constant is sign-extended is asked where the constant
is read.  The program that an image stands for is what this decoder finds in it.
-/

set_option autoImplicit false

namespace Mini8086

/-! ## Remarks -/

inductive FieldNote where
  | immediateToRegister (width : Width) (register : Octal)
  | immediateToRegisterMemory (sign : Bool) (width : Width) (mode : Fin 4) (rm : Octal)
  | registerMemory (toRegister : Bool) (width : Width) (mode : Fin 4) (register rm : Octal)

inductive DecodeNote where
  | fields (reported : FieldNote)
  | instruction (family : Family) (decoded : Instruction)

def FieldNote.message : FieldNote → String
  | .immediateToRegister width register =>
    "immediate to register | w=" ++ Numeral.bit width.isWord ++
      " reg=" ++ Numeral.binary 3 register.val
  | .immediateToRegisterMemory sign width mode rm =>
    "immediate to register/memory | s=" ++ Numeral.bit sign ++ " w=" ++ Numeral.bit width.isWord ++
      " mod=" ++ Numeral.binary 2 mode.val ++ " rm=" ++ Numeral.binary 3 rm.val
  | .registerMemory toRegister width mode register rm =>
    "register/memory | d=" ++ Numeral.bit toRegister ++ " w=" ++ Numeral.bit width.isWord ++
      " mod=" ++ Numeral.binary 2 mode.val ++ " reg=" ++ Numeral.binary 3 register.val ++
      " rm=" ++ Numeral.binary 3 rm.val

def DecodeNote.message : DecodeNote → String
  | .fields reported => reported.message
  | .instruction family decoded =>
    family.name ++ " | " ++ decoded.text ++ " (len " ++ decoded.length.repr ++ ")"

/-! ## Bytes and operands -/

/-- The input of the decoder and how many bytes of it have been taken. -/
structure ByteReader where
  bytes : List UInt8
  position : Nat

abbrev Reading : Type → Type :=
  Transition ByteReader DecodeError DecodeNote

namespace Reading

def position : Reading Nat :=
  Transition.inspect ByteReader.position

/-- One more byte than were taken is what a cut-off instruction needs at least. -/
def byte : Reading UInt8 := fun reader =>
  match reader.bytes[reader.position]? with
  | some next => ⟨.ok next, ⟨reader.bytes, reader.position + 1⟩, []⟩
  | none => ⟨.error (.truncated 0 (reader.position + 1) reader.bytes.length), reader, []⟩

def word : Reading UInt16 := do
  let low ← byte
  let high ← byte
  return Word.ofBytes low high

def data : Width → Reading Immediate
  | .byte => do
    let value ← byte
    return .ofByte value
  | .word => do
    let value ← word
    return .ofWord value

/-- Arithmetic on words may carry a single byte, which the setting says how to extend. -/
def arithmeticData (signExtend sign : Bool) (width : Width) : Reading Immediate :=
  if !width.isWord || !sign then
    data width
  else do
    let value ← byte
    return .ofWord (if signExtend then value.toInt8.toInt16.toUInt16 else value.toUInt16)

def registerOrMemory (mode : Fin 4) (rm : Octal) (width : Width) : Reading Operand :=
  let based := fun (displacement : Int16) =>
    Operand.memory ⟨.based (Base.ofCode rm), displacement, width⟩
  match mode with
  | 0 =>
    if Base.ofCode rm ≠ .bp then
      return based 0
    else do
      let address ← word
      return .memory ⟨.direct address, 0, width⟩
  | 1 => do
    let displacement ← byte
    return based displacement.toInt8.toInt16
  | 2 => do
    let displacement ← word
    return based displacement.toInt16
  | 3 => return .register (.ofCode width rm)

/-! ## Families of encodings -/

/-- What has been read is an instruction as long as the bytes that were taken for it. -/
def finish (mnemonic : Mnemonic) (destination : Operand) (source : Option Operand) :
    Reading Instruction := do
  let length ← position
  return ⟨mnemonic, destination, source, length⟩

def operands (signExtend : Bool) : Opcode → Reading Instruction
  | .immediateToRegister width register => do
    let constant ← data width
    Transition.report (.fields (.immediateToRegister width register))
    finish .mov (.register (.ofCode width register)) (some (.immediate constant))
  | .arithmeticImmediate sign width => do
    let second ← byte
    let fields := Fields.ofByte second
    match Arithmetic.ofCode? fields.register with
    | none => Transition.fail (.unsupported 1 second)
    | some operation =>
      let destination ← registerOrMemory fields.mode fields.rm width
      let constant ← arithmeticData signExtend sign width
      Transition.report (.fields (.immediateToRegisterMemory sign width fields.mode fields.rm))
      finish (.arithmetic operation) destination (some (.immediate constant))
  | .movImmediate spare width => do
    let second ← byte
    let fields := Fields.ofByte second
    let destination ← registerOrMemory fields.mode fields.rm width
    let constant ← data width
    Transition.report (.fields (.immediateToRegisterMemory spare width fields.mode fields.rm))
    finish .mov destination (some (.immediate constant))
  | .immediateToAccumulator operation width => do
    let constant ← data width
    finish (.arithmetic operation) (Encoding.accumulator width) (some (.immediate constant))
  | .branch jump => do
    let displacement ← byte
    finish (.branch jump) (.relative displacement.toInt8) none
  | .registerMemory operation toRegister width => do
    let second ← byte
    let fields := Fields.ofByte second
    let register := Operand.register (.ofCode width fields.register)
    let other ← registerOrMemory fields.mode fields.rm width
    Transition.report
      (.fields (.registerMemory toRegister width fields.mode fields.register fields.rm))
    if toRegister then
      finish (.data operation) register (some other)
    else
      finish (.data operation) other (some register)

end Reading

namespace Instruction

def reading (signExtend : Bool) : Reading Instruction := do
  let first ← Reading.byte
  match Opcode.ofByte? first with
  | none => Transition.fail (.unsupported 0 first)
  | some opcode =>
    let decoded ← Reading.operands signExtend opcode
    Transition.report (.instruction opcode.family decoded)
    return decoded

/-- The instruction at the front of a byte string. -/
def decodeOne (signExtend : Bool) (bytes : List UInt8) : Except DecodeError Instruction :=
  (reading signExtend ⟨bytes, 0⟩).result

def decodeOneNotes (signExtend : Bool) (bytes : List UInt8) : List DecodeNote :=
  (reading signExtend ⟨bytes, 0⟩).events

def decoder (signExtend : Bool) : Decoder Instruction where
  decodeOne := decodeOne signExtend
  length := length

/-- The same decoder, whose instructions come with what was remarked on them. -/
def decoderWithNotes (signExtend : Bool) : Decoder (Instruction × List DecodeNote) where
  decodeOne := fun bytes =>
    match reading signExtend ⟨bytes, 0⟩ with
    | ⟨.ok decoded, _, notes⟩ => .ok (decoded, notes)
    | ⟨.error error, _, _⟩ => .error error
  length := fun noted => noted.1.length

end Instruction

/-! ## Programs -/

/-- Instructions in the order of the image; an instruction is named by its index. -/
abbrev Program : Type :=
  Array Instruction

abbrev DecodeEvent : Type :=
  SweepEvent DecodeNote

namespace DecodeEvent

def level (event : DecodeEvent) : Level :=
  SweepEvent.level (fun _ => .trace) event

def message (event : DecodeEvent) : String :=
  SweepEvent.message DecodeNote.message event

end DecodeEvent

namespace Program

def decode (signExtend : Bool) (image : List UInt8) : Except DecodeError Program :=
  ((Instruction.decoder signExtend).decode image).map List.toArray

/-- What is reported while an image is decoded, up to the failure if there is one. -/
def decodeEvents (signExtend : Bool) (image : List UInt8) : List DecodeEvent :=
  ((Instruction.decoderWithNotes signExtend).sweep image).events Prod.snd image.length

def listing (program : Program) : List String :=
  program.toList.map Instruction.text

def lengths (program : Program) : List Nat :=
  program.toList.map Instruction.length

end Program
end Mini8086
