import Mini8086.Proofs.Image
import Mini8086.Proofs.WellFormed

/-!
# Encoding instructions

An instruction that is well-formed has a code: a displacement takes a word and so does a constant
that is as wide, so that no setting of the decoder has a part in it.  Main statement,
`Instruction.decode_encode`: the decoder yields the well-formed instructions and no others, and
decoding undoes encoding, for one instruction and for whole programs.
-/

set_option autoImplicit false

namespace Mini8086

/-! ## Codes of operands -/

/-- The place that names the operand where operands of the given width are expected. -/
def Operand.place? (width : Width) : Operand → Option Place
  | .register named => if named.width = width then some (.register named.code) else none
  | .memory ⟨.based base, displacement, wide⟩ =>
    if wide = width then some (.far base displacement) else none
  | .memory ⟨.direct address, displacement, wide⟩ =>
    if wide = width ∧ displacement = 0 then some (.direct address) else none
  | .immediate _ | .relative _ => none

theorem Operand.operand_of_place? {operand : Operand} {width : Width} {place : Place}
    (named : operand.place? width = some place) : place.operand width = operand := by
  rcases operand with register | ⟨⟨base⟩ | ⟨address⟩, displacement, wide⟩ | constant | distance
  · simp only [place?, Option.ite_none_right_eq_some] at named
    obtain ⟨rfl, same⟩ := named
    cases same
    rw [Place.operand, Register.ofCode_width_code]
  · simp only [place?, Option.ite_none_right_eq_some] at named
    obtain ⟨rfl, same⟩ := named
    cases same
    rfl
  · simp only [place?, Option.ite_none_right_eq_some] at named
    obtain ⟨⟨rfl, rfl⟩, same⟩ := named
    cases same
    rfl
  · cases named
  · cases named

theorem Operand.Located.exists_place {operand : Operand} {width : Width}
    (located : operand.Located width) : ∃ place, operand.place? width = some place := by
  cases located with
  | register register => exact ⟨_, if_pos rfl⟩
  | based base displacement width => exact ⟨_, if_pos rfl⟩
  | direct address width => exact ⟨_, if_pos ⟨rfl, rfl⟩⟩

theorem Operand.Located.width?_eq {operand : Operand} {width : Width}
    (located : operand.Located width) : operand.width? = some width := by
  cases located <;> rfl

def Operand.register? : Operand → Option Register
  | .register named => some named
  | .memory _ | .immediate _ | .relative _ => none

def Immediate.data? (constant : Immediate) : Option Data :=
  match constant.width with
  | .byte => if constant.value < 256 then some (.byte (Word.low constant.value)) else none
  | .word => some (.word constant.value)

theorem Word.toUInt16_low {word : UInt16} (small : word < 256) :
    (Word.low word).toUInt16 = word := by
  apply UInt16.toNat_inj.mp
  have bound : word.toNat < 256 := UInt16.lt_iff_toNat_lt.mp small
  rw [UInt8.toNat_toUInt16, Word.toNat_low, Nat.mod_eq_of_lt bound]

theorem Immediate.immediate_of_data? {constant : Immediate} {data : Data}
    (held : constant.data? = some data) : data.immediate = constant := by
  obtain ⟨value, width⟩ := constant
  cases width with
  | byte =>
    simp only [data?, Option.ite_none_right_eq_some] at held
    obtain ⟨small, same⟩ := held
    cases same
    rw [Data.immediate, Immediate.ofByte, Word.toUInt16_low small]
  | word =>
    cases held
    rfl

theorem Immediate.Fits.exists_data {constant : Immediate} (fits : constant.Fits) :
    ∃ data, constant.data? = some data := by
  obtain ⟨value, width⟩ := constant
  cases width with
  | byte => exact ⟨_, if_pos (fits rfl)⟩
  | word => exact ⟨_, rfl⟩

/-- The same data where arithmetic expects it, never in the short form. -/
def Data.whole : Data → ArithmeticData
  | .byte value => .byte false value
  | .word value => .word value

@[simp]
theorem Data.width_whole (data : Data) : data.whole.width = data.width := by
  cases data <;> rfl

@[simp]
theorem Data.immediate_whole (signExtend : Bool) (data : Data) :
    data.whole.immediate signExtend = data.immediate := by
  cases data <;> rfl

/-! ## Codes of instructions -/

def DataOperation.withConstant (operation : DataOperation) (place : Place) (data : Data) :
    Encoding :=
  match operation with
  | .mov => .movImmediate false (Octal.ofNat 0) place data
  | .arithmetic operation => .arithmeticImmediate operation place data.whole

theorem DataOperation.instruction_withConstant (operation : DataOperation) (place : Place)
    (data : Data) (signExtend : Bool) :
    (operation.withConstant place data).instruction signExtend =
      ⟨.data operation, place.operand data.width, some (.immediate data.immediate),
        (operation.withConstant place data).length⟩ := by
  cases operation with
  | mov => rfl
  | arithmetic operation =>
    simp only [withConstant, Encoding.instruction, Encoding.mnemonic, Encoding.destination,
      Encoding.source?, Data.width_whole, Data.immediate_whole]
    rfl

namespace Instruction

def encoding? (instruction : Instruction) : Option Encoding :=
  match instruction.mnemonic, instruction.source with
  | .branch jump, none =>
    instruction.displacement?.map fun displacement => .branch jump displacement
  | .data operation, some (.immediate constant) =>
    constant.data?.bind fun data =>
      (instruction.destination.place? constant.width).map fun place =>
        operation.withConstant place data
  | .data operation, some (.register named) =>
    (instruction.destination.place? named.width).map fun place =>
      .registerMemory operation false named.width named.code place
  | .data operation, some (.memory source) =>
    instruction.destination.register?.bind fun named =>
      ((Operand.memory source).place? named.width).map fun place =>
        .registerMemory operation true named.width named.code place
  | _, _ => none

/-- The bytes of the instruction; one that has no encoding has none. -/
def encode (instruction : Instruction) : List UInt8 :=
  (instruction.encoding?.map Encoding.bytes).getD []

def encoded (instruction : Instruction) : Instruction :=
  { instruction with length := instruction.encode.length }

theorem instruction_of_encoding? {instruction : Instruction} {encoding : Encoding}
    (found : instruction.encoding? = some encoding) (signExtend : Bool) :
    encoding.instruction signExtend = { instruction with length := encoding.length } := by
  obtain ⟨mnemonic, destination, source, length⟩ := instruction
  match mnemonic, source, found with
  | .branch jump, none, found =>
    obtain ⟨displacement, away, rfl⟩ := Option.map_eq_some_iff.mp found
    cases destination <;> cases away
    rfl
  | .branch jump, some source, found => cases found
  | .data operation, none, found => cases found
  | .data operation, some (.immediate constant), found =>
    obtain ⟨data, held, placed⟩ := Option.bind_eq_some_iff.mp found
    obtain ⟨place, located, rfl⟩ := Option.map_eq_some_iff.mp placed
    have same := Immediate.immediate_of_data? held
    rw [← same, Data.width_immediate] at located
    rw [operation.instruction_withConstant, Operand.operand_of_place? located, same]
  | .data operation, some (.register named), found =>
    obtain ⟨place, located, rfl⟩ := Option.map_eq_some_iff.mp found
    have same := Operand.operand_of_place? located
    simp [Encoding.instruction, Encoding.mnemonic, Encoding.destination, Encoding.source?, same]
  | .data operation, some (.memory source), found =>
    obtain ⟨named, target, placed⟩ := Option.bind_eq_some_iff.mp found
    obtain ⟨place, located, rfl⟩ := Option.map_eq_some_iff.mp placed
    have same := Operand.operand_of_place? located
    cases destination <;> cases target
    simp [Encoding.instruction, Encoding.mnemonic, Encoding.destination, Encoding.source?, same]
  | .data operation, some (.relative displacement), found => cases found

theorem WellFormed.exists_encoding {instruction : Instruction}
    (wellFormed : instruction.WellFormed) :
    ∃ encoding, instruction.encoding? = some encoding := by
  cases wellFormed with
  | branch jump displacement length => exact ⟨_, rfl⟩
  | @toRegister operation named source length located =>
    obtain ⟨place, placed⟩ := located.exists_place
    have wide := located.width?_eq
    cases source with
    | register other =>
      have same : named.width = other.width := (Option.some.inj wide).symm
      simp [encoding?, Operand.place?, same]
    | memory source => simp [encoding?, Operand.register?, placed]
    | immediate constant => cases placed
    | relative displacement => cases placed
  | @fromRegister operation destination named length located =>
    obtain ⟨place, placed⟩ := located.exists_place
    simp [encoding?, placed]
  | @constant operation destination constant length located fits =>
    obtain ⟨place, placed⟩ := located.exists_place
    obtain ⟨data, held⟩ := fits.exists_data
    simp [encoding?, placed, held]

theorem WellFormed.of_length {instruction : Instruction} {length : Nat}
    (wellFormed : { instruction with length }.WellFormed) : instruction.WellFormed := by
  obtain ⟨mnemonic, destination, source, own⟩ := instruction
  cases wellFormed with
  | branch jump displacement => exact .branch jump displacement own
  | toRegister operation named _ located => exact .toRegister operation named own located
  | fromRegister operation named _ located => exact .fromRegister operation named own located
  | constant operation _ located fits => exact .constant operation own located fits

theorem wellFormed_iff_isSome_encoding? {instruction : Instruction} :
    instruction.WellFormed ↔ instruction.encoding?.isSome := by
  rw [Option.isSome_iff_exists]
  constructor
  · exact WellFormed.exists_encoding
  · intro encodable
    obtain ⟨encoding, found⟩ := encodable
    have wellFormed := encoding.wellFormed false
    rw [instruction_of_encoding? found] at wellFormed
    exact wellFormed.of_length

instance : DecidablePred WellFormed := fun _ =>
  decidable_of_iff _ wellFormed_iff_isSome_encoding?.symm

/-- A byte register takes no constant that is wider than a byte. -/
example : ¬ WellFormed ⟨.mov, .register (.byte .al), some (.immediate ⟨256, .byte⟩), 2⟩ := by
  decide

/-! ## Decoding undoes encoding -/

/-- The code of a well-formed instruction is that of an encoding which means the instruction. -/
theorem WellFormed.exists_meaning {instruction : Instruction}
    (wellFormed : instruction.WellFormed) :
    ∃ encoding : Encoding, encoding.bytes = instruction.encode ∧
      ∀ signExtend, encoding.instruction signExtend = instruction.encoded := by
  obtain ⟨encoding, found⟩ := wellFormed.exists_encoding
  have code : encoding.bytes = instruction.encode := by
    rw [encode, found, Option.map_some, Option.getD_some]
  refine ⟨encoding, code, ?_⟩
  intro signExtend
  rw [instruction_of_encoding? found, encoded, ← code]
  rfl

section Decoding

variable {signExtend : Bool}

theorem wellFormed_of_decodeOne {input : List UInt8} {instruction : Instruction}
    (decoded : decodeOne signExtend input = .ok instruction) : instruction.WellFormed := by
  obtain ⟨encoding, _, rfl⟩ := decodeOne_eq_ok_iff.mp decoded
  exact encoding.wellFormed signExtend

theorem WellFormed.decodeOne_encode {instruction : Instruction}
    (wellFormed : instruction.WellFormed) (rest : List UInt8) :
    decodeOne signExtend (instruction.encode ++ rest) = .ok instruction.encoded := by
  obtain ⟨encoding, code, means⟩ := wellFormed.exists_meaning
  rw [decodeOne_eq_ok_iff, ← code]
  exact ⟨encoding, List.prefix_append _ _, means signExtend⟩

/-- `[bp]` is written with a displacement, as its code without one means a direct address. -/
example : encode ⟨.mov, .register (.word .ax), some (.memory ⟨.based .bp, 0, .word⟩), 2⟩ =
    [0x8B, 0x86, 0x00, 0x00] := by
  decide

theorem exists_encodings {instructions : List Instruction}
    (wellFormed : ∀ instruction ∈ instructions, instruction.WellFormed) :
    ∃ encodings : List Encoding,
      encodings.flatMap Encoding.bytes = instructions.flatMap encode ∧
        encodings.map (Encoding.instruction signExtend) = instructions.map encoded := by
  induction instructions with
  | nil => exact ⟨[], rfl, rfl⟩
  | cons instruction others ih =>
    obtain ⟨encoding, code, means⟩ := (wellFormed _ List.mem_cons_self).exists_meaning
    obtain ⟨encodings, codes, meanings⟩ := ih fun other member =>
      wellFormed other (List.mem_cons_of_mem instruction member)
    refine ⟨encoding :: encodings, ?_, ?_⟩
    · rw [List.flatMap_cons, List.flatMap_cons, code, codes]
    · rw [List.map_cons, List.map_cons, means, meanings]

theorem decode_flatMap_encode {instructions : List Instruction}
    (wellFormed : ∀ instruction ∈ instructions, instruction.WellFormed) :
    Program.decode signExtend (instructions.flatMap encode) =
      .ok (instructions.map encoded).toArray := by
  obtain ⟨encodings, codes, meanings⟩ := exists_encodings wellFormed
  rw [Program.decode_eq_ok_iff, ← meanings]
  exact ⟨encodings, codes, rfl⟩

end Decoding

/-- The decoder with this setting and the encoder belong together. -/
structure RoundTrip (signExtend : Bool) : Prop where
  decoded_wellFormed : ∀ (input : List UInt8) (instruction : Instruction),
    decodeOne signExtend input = .ok instruction → instruction.WellFormed
  decodeOne_encode : ∀ instruction : Instruction, instruction.WellFormed →
    ∀ rest : List UInt8,
      decodeOne signExtend (instruction.encode ++ rest) =
        .ok { instruction with length := instruction.encode.length }
  wellFormed_iff : ∀ instruction : Instruction, instruction.WellFormed ↔
    ∃ input length, decodeOne signExtend input = .ok { instruction with length }
  decode_encodes : ∀ instructions : List Instruction,
    (∀ instruction ∈ instructions, instruction.WellFormed) →
      Program.decode signExtend (instructions.flatMap encode) =
        .ok (instructions.map fun instruction =>
          { instruction with length := instruction.encode.length }).toArray

theorem decode_encode (signExtend : Bool) : RoundTrip signExtend where
  decoded_wellFormed := by
    intro input instruction decoded
    exact wellFormed_of_decodeOne decoded
  decodeOne_encode := by
    intro instruction wellFormed rest
    exact wellFormed.decodeOne_encode rest
  wellFormed_iff := by
    intro instruction
    constructor
    · intro wellFormed
      exact ⟨_, _, wellFormed.decodeOne_encode []⟩
    · intro decodable
      obtain ⟨input, length, decoded⟩ := decodable
      exact (wellFormed_of_decodeOne decoded).of_length
  decode_encodes := by
    intro instructions wellFormed
    exact decode_flatMap_encode wellFormed

end Instruction
end Mini8086
