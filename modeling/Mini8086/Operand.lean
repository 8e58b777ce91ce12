import Mini8086.Register

/-!
# Operands

A register, a place in memory, an immediate value, or the distance of a jump. A place in memory is
addressed by a register base or directly; only a direct address is known without looking at a
machine.
-/

set_option autoImplicit false

namespace Mini8086

/-- The sums of registers that can address memory, in the order of their codes. -/
inductive Base where
  | bxSi | bxDi | bpSi | bpDi | si | di | bp | bx
  deriving DecidableEq

inductive Address where
  | based (base : Base)
  | direct (address : UInt16)
  deriving DecidableEq

structure MemoryOperand where
  address : Address
  displacement : Int16
  width : Width
  deriving DecidableEq

/-- A value that stands in the instruction itself; a byte-wide one may carry more than a byte. -/
structure Immediate where
  value : UInt16
  width : Width
  deriving DecidableEq

inductive Operand where
  | register (register : Register)
  | memory (memory : MemoryOperand)
  | immediate (immediate : Immediate)
  /-- A distance in bytes, counted from the end of the instruction. -/
  | relative (displacement : Int8)
  deriving DecidableEq

namespace Base

def name : Base → String
  | .bxSi => "bx + si"
  | .bxDi => "bx + di"
  | .bpSi => "bp + si"
  | .bpDi => "bp + di"
  | .si => "si"
  | .di => "di"
  | .bp => "bp"
  | .bx => "bx"

def code : Base → Octal
  | .bxSi => Octal.ofNat 0
  | .bxDi => Octal.ofNat 1
  | .bpSi => Octal.ofNat 2
  | .bpDi => Octal.ofNat 3
  | .si => Octal.ofNat 4
  | .di => Octal.ofNat 5
  | .bp => Octal.ofNat 6
  | .bx => Octal.ofNat 7

def ofCode : Octal → Base
  | 0 => .bxSi
  | 1 => .bxDi
  | 2 => .bpSi
  | 3 => .bpDi
  | 4 => .si
  | 5 => .di
  | 6 => .bp
  | 7 => .bx

@[simp]
theorem ofCode_code (base : Base) : ofCode base.code = base := by
  cases base <;> rfl

@[simp]
theorem code_ofCode (code : Octal) : (ofCode code).code = code := by
  revert code
  decide

end Base

def Address.text : Address → String
  | .based base => base.name
  | .direct address => address.toNat.repr

namespace MemoryOperand

/-- The address, where it depends on no register; it wraps at the end of the address space. -/
def absolute? (operand : MemoryOperand) : Option UInt16 :=
  match operand.address with
  | .direct address => some (address + operand.displacement.toUInt16)
  | .based _ => none

/-- A displacement of zero is left out, and a negative one is written as a difference. -/
def text (operand : MemoryOperand) : String :=
  let displacement := operand.displacement.toInt
  if displacement = 0 then
    "[" ++ operand.address.text ++ "]"
  else if displacement < 0 then
    "[" ++ operand.address.text ++ " - " ++ displacement.natAbs.repr ++ "]"
  else
    "[" ++ operand.address.text ++ " + " ++ displacement.natAbs.repr ++ "]"

end MemoryOperand

namespace Immediate

def ofByte (value : UInt8) : Immediate :=
  ⟨value.toUInt16, .byte⟩

def ofWord (value : UInt16) : Immediate :=
  ⟨value, .word⟩

def text (immediate : Immediate) : String :=
  immediate.value.toNat.repr

end Immediate

namespace Operand

def width? : Operand → Option Width
  | .register named => some named.width
  | .memory place => some place.width
  | .immediate constant => some constant.width
  | .relative _ => none

/-- The width at which an instruction with this destination works: that of the destination, or a
word when the destination has none. -/
def workingWidth (operand : Operand) : Width :=
  operand.width?.getD .word

def absolute? : Operand → Option UInt16
  | .memory place => place.absolute?
  | _ => none

def text : Operand → String
  | .register named => named.name
  | .memory place => place.text
  | .immediate constant => constant.text
  | .relative displacement => displacement.toInt.repr

end Operand
end Mini8086
