import Mini8086.Operand

/-!
# Constants and places in an encoding

A reader takes a value off the front of a byte string and hands back the rest, one byte at a time.
A constant is as wide as the operation that uses it, except that arithmetic on words may carry a
single byte.  The second byte of most encodings holds a mode, a register code and the code of a
register or an address base: mode and code, with the displacement bytes that follow, name a place.
Mode 0 with the code of `bp` is taken by direct addresses, so `[bp]` itself is written with an
explicit displacement of zero.
-/

set_option autoImplicit false

namespace Mini8086

/-! ## Readers -/

inductive Refusal where
  | truncated
  /-- The byte at `offset` continues no encoding. -/
  | unsupported (offset : Nat) (byte : UInt8)
  deriving DecidableEq

/-- Takes a value off the front of the input. -/
def Reader (α : Type) : Type :=
  List UInt8 → Except Refusal (α × List UInt8)

namespace Reader

variable {α β : Type}

@[inline]
def done (value : α) : Reader α := fun bytes =>
  .ok (value, bytes)

@[inline]
def refuse (refusal : Refusal) : Reader α := fun _ =>
  .error refusal

@[inline]
def andThen (first : Reader α) (next : α → Reader β) : Reader β := fun bytes =>
  match first bytes with
  | .ok (value, rest) => next value rest
  | .error refusal => .error refusal

instance : Monad Reader where
  pure := done
  bind := andThen

def byte : Reader UInt8
  | [] => .error .truncated
  | next :: rest => .ok (next, rest)

/-- Takes the next two bytes as a word, low byte first. -/
def word : Reader UInt16 := do
  let low ← byte
  let high ← byte
  return Word.ofBytes low high

/-! ## Laws -/

theorem pure_apply (value : α) (bytes : List UInt8) :
    (pure value : Reader α) bytes = .ok (value, bytes) := rfl

theorem bind_apply (first : Reader α) (next : α → Reader β) (bytes : List UInt8) :
    (first >>= next) bytes =
      match first bytes with
      | .ok (value, rest) => next value rest
      | .error refusal => .error refusal := rfl

@[simp]
theorem byte_cons (next : UInt8) (rest : List UInt8) : byte (next :: rest) = .ok (next, rest) := rfl

@[simp]
theorem byte_nil : byte [] = .error .truncated := rfl

@[simp]
theorem word_cons_cons (low high : UInt8) (rest : List UInt8) :
    word (low :: high :: rest) = .ok (Word.ofBytes low high, rest) := rfl

end Reader

/-! ## Constants -/

inductive Data where
  | byte (value : UInt8)
  | word (value : UInt16)
  deriving DecidableEq

namespace Data

def width : Data → Width
  | .byte _ => .byte
  | .word _ => .word

def bytes : Data → List UInt8
  | .byte value => [value]
  | .word value => Word.bytes value

def immediate : Data → Immediate
  | .byte value => .ofByte value
  | .word value => .ofWord value

def read : Width → Reader Data
  | .byte => do
    let value ← Reader.byte
    return .byte value
  | .word => do
    let value ← Reader.word
    return .word value

end Data

/-- A constant of an arithmetic operation. The sign bit of the opcode matters on words only, where
it marks a short constant; on bytes it is kept as it was written. -/
inductive ArithmeticData where
  | byte (sign : Bool) (value : UInt8)
  | word (value : UInt16)
  | short (value : UInt8)
  deriving DecidableEq

namespace ArithmeticData

def sign : ArithmeticData → Bool
  | .byte sign _ => sign
  | .word _ => false
  | .short _ => true

def width : ArithmeticData → Width
  | .byte .. => .byte
  | .word _ | .short _ => .word

def bytes : ArithmeticData → List UInt8
  | .byte _ value | .short value => [value]
  | .word value => Word.bytes value

def immediate (signExtend : Bool) : ArithmeticData → Immediate
  | .byte _ value => .ofByte value
  | .word value => .ofWord value
  | .short value => .ofWord (if signExtend then value.toInt8.toInt16.toUInt16 else value.toUInt16)

def read (sign : Bool) : Width → Reader ArithmeticData
  | .byte => do
    let value ← Reader.byte
    return .byte sign value
  | .word =>
    if sign then do
      let value ← Reader.byte
      return .short value
    else do
      let value ← Reader.word
      return .word value

end ArithmeticData

/-! ## Places -/

structure Fields where
  mode : Fin 4
  register : Octal
  rm : Octal
  deriving DecidableEq

namespace Fields

def byte (fields : Fields) : UInt8 :=
  UInt8.ofNat (64 * fields.mode.val + 8 * fields.register.val + fields.rm.val)

def ofByte (byte : UInt8) : Fields where
  mode := Fin.ofNat 4 (Byte.bits byte 6 2).toNat
  register := Byte.octal byte 3
  rm := Byte.octal byte 0

@[simp]
theorem ofByte_byte (fields : Fields) : ofByte fields.byte = fields := by
  have every : ∀ (mode : Fin 4) (register rm : Octal),
      ofByte (byte ⟨mode, register, rm⟩) = ⟨mode, register, rm⟩ := by
    decide +kernel
  exact every fields.mode fields.register fields.rm

@[simp]
theorem byte_ofByte (byte : UInt8) : (ofByte byte).byte = byte := by
  revert byte
  exact Byte.forall_of_codes (by decide +kernel)

end Fields

/-- What a mode, a code and the bytes after them name. -/
inductive Place where
  | register (code : Octal)
  | direct (address : UInt16)
  | plain (base : Base) (notBp : base ≠ .bp)
  | near (base : Base) (displacement : Int8)
  | far (base : Base) (displacement : Int16)
  deriving DecidableEq

namespace Place

def mode : Place → Fin 4
  | .direct _ | .plain .. => 0
  | .near .. => 1
  | .far .. => 2
  | .register _ => 3

def rm : Place → Octal
  | .register code => code
  | .direct _ => Base.bp.code
  | .plain base _ | .near base _ | .far base _ => base.code

/-- The bytes behind the second one that belong to the place. -/
def bytes : Place → List UInt8
  | .register _ | .plain .. => []
  | .direct address => Word.bytes address
  | .near _ displacement => [displacement.toUInt8]
  | .far _ displacement => Word.bytes displacement.toUInt16

def operand (place : Place) (width : Width) : Operand :=
  match place with
  | .register code => .register (.ofCode width code)
  | .direct address => .memory ⟨.direct address, 0, width⟩
  | .plain base _ => .memory ⟨.based base, 0, width⟩
  | .near base displacement => .memory ⟨.based base, displacement.toInt16, width⟩
  | .far base displacement => .memory ⟨.based base, displacement, width⟩

def read (mode : Fin 4) (rm : Octal) : Reader Place :=
  let base := Base.ofCode rm
  match mode with
  | 0 =>
    if notBp : base ≠ .bp then
      return .plain base notBp
    else do
      let address ← Reader.word
      return .direct address
  | 1 => do
    let displacement ← Reader.byte
    return .near base displacement.toInt8
  | 2 => do
    let displacement ← Reader.word
    return .far base displacement.toInt16
  | 3 => return .register rm

end Place

end Mini8086
