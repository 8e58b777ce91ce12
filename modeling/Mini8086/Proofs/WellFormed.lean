import Mini8086.Proofs.DecodeOne

/-!
# Decoded instructions

What the decoder can emit: a jump has a distance and no source; the operands of a data operation
are equally wide, one of them at most is a place in memory, and only a source is a constant.
-/

set_option autoImplicit false

namespace Mini8086

/-- The registers and places in memory that an encoding can name, with their widths. -/
inductive Operand.Located : Operand → Width → Prop where
  | register (register : Register) : Located (.register register) register.width
  | based (base : Base) (displacement : Int16) (width : Width) :
    Located (.memory ⟨.based base, displacement, width⟩) width
  | direct (address : UInt16) (width : Width) : Located (.memory ⟨.direct address, 0, width⟩) width

def Immediate.Fits (constant : Immediate) : Prop :=
  constant.width = .byte → constant.value < 256

inductive Instruction.WellFormed : Instruction → Prop where
  | branch (jump : Branch) (displacement : Int8) (length : Nat) :
    WellFormed ⟨.branch jump, .relative displacement, none, length⟩
  | toRegister (operation : DataOperation) (register : Register) {source : Operand} (length : Nat)
      (located : source.Located register.width) :
    WellFormed ⟨.data operation, .register register, some source, length⟩
  | fromRegister (operation : DataOperation) {destination : Operand} (register : Register)
      (length : Nat) (located : destination.Located register.width) :
    WellFormed ⟨.data operation, destination, some (.register register), length⟩
  | constant (operation : DataOperation) {destination : Operand} {constant : Immediate}
      (length : Nat) (located : destination.Located constant.width) (fits : constant.Fits) :
    WellFormed ⟨.data operation, destination, some (.immediate constant), length⟩

/-! ## The parts of an encoding -/

theorem Operand.located_ofCode (width : Width) (code : Octal) :
    Operand.Located (.register (.ofCode width code)) width := by
  have located := Operand.Located.register (Register.ofCode width code)
  rwa [Register.width_ofCode] at located

theorem Place.located (place : Place) (width : Width) : (place.operand width).Located width := by
  cases place with
  | register code => exact Operand.located_ofCode width code
  | direct address => exact .direct address width
  | plain base notBp => exact .based base 0 width
  | near base displacement => exact .based base displacement.toInt16 width
  | far base displacement => exact .based base displacement width

theorem Data.width_immediate (data : Data) : data.immediate.width = data.width := by
  cases data <;> rfl

theorem ArithmeticData.width_immediate (signExtend : Bool) (data : ArithmeticData) :
    (data.immediate signExtend).width = data.width := by
  cases data <;> rfl

theorem Immediate.fits_ofByte (value : UInt8) : (Immediate.ofByte value).Fits := by
  intro _
  have small : value.toNat < 256 := value.toNat_lt
  rw [UInt16.lt_iff_toNat_lt]
  simpa [Immediate.ofByte] using small

theorem Immediate.fits_ofWord (value : UInt16) : (Immediate.ofWord value).Fits := by
  intro byte
  cases byte

theorem Data.fits_immediate (data : Data) : data.immediate.Fits := by
  cases data with
  | byte value => exact Immediate.fits_ofByte value
  | word value => exact Immediate.fits_ofWord value

theorem ArithmeticData.fits_immediate (signExtend : Bool) (data : ArithmeticData) :
    (data.immediate signExtend).Fits := by
  cases data with
  | byte sign value => exact Immediate.fits_ofByte value
  | word value => exact Immediate.fits_ofWord value
  | short value => exact Immediate.fits_ofWord _

/-! ## Whole encodings -/

theorem Encoding.wellFormed (signExtend : Bool) (encoding : Encoding) :
    (encoding.instruction signExtend).WellFormed := by
  cases encoding with
  | immediateToRegister code data =>
    apply Instruction.WellFormed.constant
    · rw [data.width_immediate]
      exact Operand.located_ofCode data.width code
    · exact data.fits_immediate
  | arithmeticImmediate operation place data =>
    apply Instruction.WellFormed.constant
    · rw [data.width_immediate]
      exact place.located data.width
    · exact data.fits_immediate signExtend
  | movImmediate spare unused place data =>
    apply Instruction.WellFormed.constant
    · rw [data.width_immediate]
      exact place.located data.width
    · exact data.fits_immediate
  | immediateToAccumulator operation data =>
    apply Instruction.WellFormed.constant
    · rw [data.width_immediate]
      exact Operand.located_ofCode data.width _
    · exact data.fits_immediate
  | branch jump displacement => exact .branch jump displacement _
  | registerMemory operation toRegister width code place =>
    have located := place.located width
    have same := Register.width_ofCode width code
    cases toRegister with
    | true =>
      apply Instruction.WellFormed.toRegister
      rwa [same]
    | false =>
      apply Instruction.WellFormed.fromRegister
      rwa [same]

end Mini8086
