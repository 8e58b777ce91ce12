import Mini8086.Proofs.Image

/-!
# Decoding with and without sign extension

The decoder asks whether to sign-extend in the middle of an instruction, where it reads a short
constant.  With either answer it takes the bytes of the same encoding, so two decoders that answer
differently stay at the same offset.  Main statement, `Program.decode_sameButConstants`: the setting
changes the source of those instructions whose constant is a single byte with its highest bit set,
and nothing else; in particular no jump gets another target.
-/

set_option autoImplicit false

namespace Mini8086

/-! ## A byte as a word -/

theorem Byte.toWord_of_low {value : UInt8} (low : value < 0x80) :
    value.toInt8.toInt16.toUInt16 = value.toUInt16 := by
  have every : ∀ value : UInt8, value < 0x80 →
      value.toInt8.toInt16.toUInt16 = value.toUInt16 :=
    Byte.forall_of_codes (by decide +kernel)
  exact every value low

theorem Byte.toWord_of_high {value : UInt8} (high : 0x80 ≤ value) :
    value.toInt8.toInt16.toUInt16 = value.toUInt16 + 0xFF00 := by
  have every : ∀ value : UInt8, 0x80 ≤ value →
      value.toInt8.toInt16.toUInt16 = value.toUInt16 + 0xFF00 :=
    Byte.forall_of_codes (by decide +kernel)
  exact every value high

namespace Encoding

/-! ## Encodings with a short constant -/

/-- The byte 0x83 opens arithmetic on words with a constant of one byte, and nothing else. -/
theorem eq_short_of_opcode {encoding : Encoding} (opens : encoding.opcode.byte = 0x83) :
    ∃ (operation : Arithmetic) (place : Place) (value : UInt8),
      encoding = .arithmeticImmediate operation place (.short value) := by
  have opcode : encoding.opcode = .arithmeticImmediate true .word := by
    have found := Opcode.ofByte?_byte encoding.opcode
    rw [opens] at found
    exact (Option.some.inj found).symm
  cases encoding with
  | arithmeticImmediate operation place data =>
    cases data with
    | short value => exact ⟨operation, place, value, rfl⟩
    | byte sign value => cases opcode
    | word value => cases opcode
  | immediateToRegister => cases opcode
  | movImmediate => cases opcode
  | immediateToAccumulator => cases opcode
  | branch => cases opcode
  | registerMemory => cases opcode

theorem getLast?_bytes_short (operation : Arithmetic) (place : Place) (value : UInt8) :
    (arithmeticImmediate operation place (.short value)).bytes.getLast? = some value := by
  simp [bytes, operandBytes, ArithmeticData.bytes, List.getLast?_cons]

/-- Sign extension leaves a source alone unless it is a short constant with its highest bit set. -/
theorem source?_eq_of_low {encoding : Encoding}
    (low : ∀ operation place value,
      encoding = .arithmeticImmediate operation place (.short value) → value < 0x80) :
    encoding.source? false = encoding.source? true := by
  cases encoding with
  | arithmeticImmediate operation place data =>
    cases data with
    | short value =>
      have extended := Byte.toWord_of_low (low operation place value rfl)
      simp [source?, ArithmeticData.immediate, extended]
    | byte sign value => rfl
    | word value => rfl
  | immediateToRegister => rfl
  | movImmediate => rfl
  | immediateToAccumulator => rfl
  | branch => rfl
  | registerMemory => rfl

section Image

variable {encodings : List Encoding} {index : Nat} {encoding : Encoding}
  (listed : encodings[index]? = some encoding)

include listed

theorem getElem?_image {place : Nat} (within : place < encoding.length) :
    (encodings.flatMap bytes)[addressIn (encodings.map length) index + place]? =
      encoding.bytes[place]? := by
  obtain ⟨inside, placed⟩ := List.getElem?_eq_some_iff.mp listed
  rw [← List.getElem?_drop, drop_image, List.drop_eq_getElem_cons inside, placed,
    List.flatMap_cons, List.getElem?_append_left within]

theorem first_in_image :
    (encodings.flatMap bytes)[addressIn (encodings.map length) index]? =
      some encoding.opcode.byte := by
  have some_bytes : 0 < encoding.length := Nat.zero_lt_succ _
  have first := getElem?_image listed some_bytes
  rwa [Nat.add_zero] at first

theorem last_in_image :
    (encodings.flatMap bytes)[addressIn (encodings.map length) (index + 1) - 1]? =
      encoding.bytes.getLast? := by
  have some_bytes : 0 < encoding.length := Nat.zero_lt_succ _
  have next : addressIn (encodings.map length) (index + 1) =
      addressIn (encodings.map length) index + encoding.length := by
    apply addressIn_succ
    rw [List.getElem?_map, listed]
    rfl
  rw [next, Nat.add_sub_assoc some_bytes, getElem?_image listed (Nat.sub_lt some_bytes Nat.one_pos),
    List.getLast?_eq_getElem?]
  rfl

end Image

end Encoding

namespace Program

/-! ## Programs of one image -/

/-- The instruction at `index` opens with 0x83, and `value` is its data byte: in this encoding the
data comes last and is a single byte. -/
structure ShortConstant (image : List UInt8) (program : Program) (index : Nat) (value : UInt8) :
    Prop where
  opens : image[program.address index]? = some 0x83
  ends : image[program.address (index + 1) - 1]? = some value

/-- How an instruction decoded without sign extension compares with the one decoded with it. -/
structure SameButConstant (image : List UInt8) (program : Program) (index : Nat)
    (raw extended : Instruction) : Prop where
  mnemonic : raw.mnemonic = extended.mnemonic
  destination : raw.destination = extended.destination
  length : raw.length = extended.length
  source_high : ∀ value : UInt8, ShortConstant image program index value → 0x80 ≤ value →
    raw.source = some (.immediate (.ofWord value.toUInt16)) ∧
      extended.source = some (.immediate (.ofWord (value.toUInt16 + 0xFF00)))
  source_else : (¬ ∃ value : UInt8, ShortConstant image program index value ∧ 0x80 ≤ value) →
    raw.source = extended.source

structure SameButConstants (image : List UInt8) (raw extended : Program) : Prop where
  size : raw.size = extended.size
  instructions : ∀ (index : Nat) (left right : Instruction), raw[index]? = some left →
    extended[index]? = some right → SameButConstant image raw index left right
  jumps : ∀ (index : Nat) (offset : Int),
    resolveJump Instruction.length raw index offset =
      resolveJump Instruction.length extended index offset

section Encodings

variable {encodings : List Encoding} {index : Nat} {encoding : Encoding}

theorem shortConstant_iff (listed : encodings[index]? = some encoding) {signExtend : Bool}
    {value : UInt8} :
    ShortConstant (encodings.flatMap Encoding.bytes)
        (encodings.map (Encoding.instruction signExtend)).toArray index value ↔
      ∃ operation place,
        encoding = .arithmeticImmediate operation place (.short value) := by
  constructor
  · intro short
    obtain ⟨opens, ends⟩ := short
    rw [address, lengths_of_encodings] at opens ends
    rw [Encoding.first_in_image listed] at opens
    rw [Encoding.last_in_image listed] at ends
    obtain ⟨operation, place, found, rfl⟩ := Encoding.eq_short_of_opcode (Option.some.inj opens)
    rw [Encoding.getLast?_bytes_short] at ends
    cases ends
    exact ⟨operation, place, rfl⟩
  · intro short
    obtain ⟨operation, place, rfl⟩ := short
    constructor
    · rw [address, lengths_of_encodings, Encoding.first_in_image listed]
      rfl
    · rw [address, lengths_of_encodings, Encoding.last_in_image listed,
        Encoding.getLast?_bytes_short]

theorem sameButConstant_of_encoding (listed : encodings[index]? = some encoding) :
    SameButConstant (encodings.flatMap Encoding.bytes)
      (encodings.map (Encoding.instruction false)).toArray index (encoding.instruction false)
      (encoding.instruction true) where
  mnemonic := rfl
  destination := rfl
  length := rfl
  source_high := by
    intro value short high
    obtain ⟨operation, place, rfl⟩ := (shortConstant_iff listed).mp short
    refine ⟨rfl, ?_⟩
    rw [← Byte.toWord_of_high high]
    rfl
  source_else := by
    intro none_high
    apply Encoding.source?_eq_of_low
    intro operation place value short
    by_contra not_low
    have high : 0x80 ≤ value := UInt8.not_lt.mp not_low
    exact none_high ⟨value, (shortConstant_iff listed).mpr ⟨operation, place, short⟩, high⟩

end Encodings

theorem sameButConstants_of_encodings (encodings : List Encoding) :
    SameButConstants (encodings.flatMap Encoding.bytes)
      (encodings.map (Encoding.instruction false)).toArray
      (encodings.map (Encoding.instruction true)).toArray where
  size := by simp
  instructions := by
    intro index left right found foundExtended
    rw [List.getElem?_toArray, List.getElem?_map] at found foundExtended
    obtain ⟨encoding, listed, rfl⟩ := Option.map_eq_some_iff.mp found
    obtain ⟨same, listedTwice, rfl⟩ := Option.map_eq_some_iff.mp foundExtended
    cases listed.symm.trans listedTwice
    exact sameButConstant_of_encoding listed
  jumps := by
    intro index offset
    -- A jump asks for the lengths alone, and an encoding has its length before it has a meaning.
    rw [resolveJump_eq, resolveJump_eq]
    simp only [List.map_map, List.size_toArray, List.length_map]
    rfl

theorem decode_sameButConstants (image : List UInt8) :
    (∃ error, decode false image = .error error ∧ decode true image = .error error) ∨
      ∃ raw extended, decode false image = .ok raw ∧ decode true image = .ok extended ∧
        SameButConstants image raw extended := by
  cases decoded : Encoding.decoder.decode image with
  | error error =>
    exact .inl ⟨error, decode_eq_error_iff.mpr decoded, decode_eq_error_iff.mpr decoded⟩
  | ok encodings =>
    have written := Encoding.cuts_iff.mp (Decoder.decode_eq_ok_iff.mp decoded)
    subst written
    exact .inr ⟨_, _, decode_eq_ok_iff.mpr ⟨encodings, rfl, rfl⟩,
      decode_eq_ok_iff.mpr ⟨encodings, rfl, rfl⟩, sameButConstants_of_encodings encodings⟩

end Program
end Mini8086
