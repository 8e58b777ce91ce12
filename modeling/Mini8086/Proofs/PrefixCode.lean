import Mini8086.Proofs.DecodeOne

/-!
# Encodings as a prefix code

No encoding starts another one, so at most one encoding stands at the front of a byte string.  The
decoder tells the two ways of having none apart: input that ends inside an encoding, and a byte that
no encoding has at its place.  The argument rests on readers that are patient: they fail only where
the input ends, and some continuation of the input lets them succeed.
-/

set_option autoImplicit false

namespace Mini8086

/-! ## Patient readers -/

namespace Reader

variable {α β : Type}

/-- What the reader takes does not depend on the bytes behind it, and it fails only for want of
bytes. -/
structure Patient (reader : Reader α) : Prop where
  steady : ∀ {input rest : List UInt8} {value : α}, reader input = .ok (value, rest) →
    ∀ more, reader (input ++ more) = .ok (value, rest ++ more)
  mends : ∀ input, (∃ value rest, reader input = .ok (value, rest)) ∨
    (reader input = .error .truncated ∧
      ∃ more value rest, reader (input ++ more) = .ok (value, rest))

theorem patient_pure (value : α) : Patient (pure value : Reader α) where
  steady := by
    intro input rest found success more
    rw [pure_apply] at success ⊢
    cases success
    rfl
  mends := fun input => .inl ⟨value, input, rfl⟩

theorem patient_byte : Patient byte where
  steady := by
    intro input rest value success more
    rw [eq_of_byte success]
    rfl
  mends := by
    intro input
    cases input with
    | nil => exact .inr ⟨rfl, [0], 0, [], rfl⟩
    | cons first others => exact .inl ⟨first, others, rfl⟩

theorem Patient.bind {first : Reader α} {next : α → Reader β} (start : Patient first)
    (behind : ∀ value, Patient (next value)) : Patient (first >>= next) where
  steady := by
    intro input rest value success more
    rw [bind_apply] at success ⊢
    cases taken : first input with
    | error refusal =>
      rw [taken] at success
      cases success
    | ok pair =>
      rw [taken] at success
      rw [start.steady taken more]
      exact (behind pair.1).steady success more
  mends := by
    intro input
    rcases start.mends input with ⟨value, rest, taken⟩ | ⟨ended, more, value, rest, taken⟩
    · rw [bind_apply, taken]
      rcases (behind value).mends rest with success | ⟨ended, more, last, left, success⟩
      · exact .inl success
      · refine .inr ⟨ended, more, last, left, ?_⟩
        rw [bind_apply, start.steady taken more]
        exact success
    · have stuck : (first >>= next) input = .error .truncated := by
        rw [bind_apply, ended]
      refine .inr ⟨stuck, ?_⟩
      rcases (behind value).mends rest with ⟨last, left, success⟩ | ⟨_, again, last, left, success⟩
      · refine ⟨more, last, left, ?_⟩
        rw [bind_apply, taken]
        exact success
      · refine ⟨more ++ again, last, left, ?_⟩
        rw [← List.append_assoc, bind_apply, start.steady taken again]
        exact success

theorem patient_word : Patient word :=
  patient_byte.bind fun _ => patient_byte.bind fun _ => patient_pure _

end Reader

open Reader in
theorem Data.patient_read (width : Width) : Patient (Data.read width) := by
  cases width with
  | byte => exact patient_byte.bind fun _ => patient_pure _
  | word => exact patient_word.bind fun _ => patient_pure _

open Reader in
theorem ArithmeticData.patient_read (sign : Bool) (width : Width) :
    Patient (ArithmeticData.read sign width) := by
  cases width with
  | byte => exact patient_byte.bind fun _ => patient_pure _
  | word =>
    cases sign with
    | false => exact patient_word.bind fun _ => patient_pure _
    | true => exact patient_byte.bind fun _ => patient_pure _

open Reader in
theorem Place.patient_read (mode : Fin 4) (rm : Octal) : Patient (Place.read mode rm) := by
  match mode with
  | 0 =>
    by_cases bp : Base.ofCode rm = .bp
    · have direct : Place.read 0 rm = do
          let address ← word
          return .direct address := by
        simp [Place.read, bp]
      rw [direct]
      exact patient_word.bind fun _ => patient_pure _
    · have plain : Place.read 0 rm = pure (.plain (Base.ofCode rm) bp) := by
        simp [Place.read, bp]
      rw [plain]
      exact patient_pure _
  | 1 => exact patient_byte.bind fun _ => patient_pure _
  | 2 => exact patient_word.bind fun _ => patient_pure _
  | 3 => exact patient_pure _

namespace Encoding

open Reader

theorem patient_readPlace : Patient readPlace :=
  patient_byte.bind fun second =>
    (Place.patient_read (Fields.ofByte second).mode (Fields.ofByte second).rm).bind fun _ =>
      patient_pure _

/-! ## The two refusals -/

/-- `Refused offset byte input`: the input starts like an encoding up to `offset`, and its byte
there continues none. -/
inductive Refused : Nat → UInt8 → List UInt8 → Prop where
  | opcode {first : UInt8} (rest : List UInt8) (unknown : Opcode.ofByte? first = none) :
      Refused 0 first (first :: rest)
  | operation {first second : UInt8} {short : Bool} {width : Width} (rest : List UInt8)
      (known : Opcode.ofByte? first = some (.arithmeticImmediate short width))
      (unknown : Arithmetic.ofCode? (Fields.ofByte second).register = none) :
      Refused 1 second (first :: second :: rest)

theorem Refused.append {offset : Nat} {byte : UInt8} {input : List UInt8}
    (refused : Refused offset byte input) (more : List UInt8) :
    Refused offset byte (input ++ more) := by
  cases refused with
  | opcode rest unknown => exact .opcode (rest ++ more) unknown
  | operation rest known unknown => exact .operation (rest ++ more) known unknown

theorem read_of_refused {offset : Nat} {byte : UInt8} {input : List UInt8}
    (refused : Refused offset byte input) : read input = .error (.unsupported offset byte) := by
  cases refused with
  | opcode rest unknown =>
    rw [read, bind_apply, byte_cons]
    simp only [unknown]
    rfl
  | operation rest known unknown =>
    rw [read, bind_apply, byte_cons]
    simp only [known]
    rw [readOperands, bind_apply, byte_cons]
    simp only [unknown]
    rfl

/-- How reading can end: with an encoding, at the end of the input, or at a byte that fits nowhere.
-/
inductive ReadOutcome (input : List UInt8) : Prop where
  | taken (encoding : Encoding) (rest : List UInt8) (success : read input = .ok (encoding, rest))
  | ended (truncated : read input = .error .truncated) (more : List UInt8) (encoding : Encoding)
      (rest : List UInt8) (success : read (input ++ more) = .ok (encoding, rest))
  | refused (offset : Nat) (byte : UInt8) (cause : Refused offset byte input)

theorem readOutcome_of_patient {first : UInt8} {opcode : Opcode} (others : List UInt8)
    (known : Opcode.ofByte? first = some opcode) (patient : Patient (readOperands opcode)) :
    ReadOutcome (first :: others) := by
  have opened : ∀ behind, read (first :: behind) = readOperands opcode behind := by
    intro behind
    rw [read, bind_apply, byte_cons]
    simp only [known]
  rcases patient.mends others with ⟨encoding, rest, success⟩ |
    ⟨truncated, more, encoding, rest, success⟩
  · exact .taken encoding rest ((opened others).trans success)
  · exact .ended ((opened others).trans truncated) more encoding rest
      ((opened (others ++ more)).trans success)

def readArithmetic (short : Bool) (width : Width) (second : UInt8) (operation : Arithmetic) :
    Reader Encoding := do
  let place ← Place.read (Fields.ofByte second).mode (Fields.ofByte second).rm
  let data ← ArithmeticData.read short width
  return .arithmeticImmediate operation place data

theorem patient_readArithmetic (short : Bool) (width : Width) (second : UInt8)
    (operation : Arithmetic) : Patient (readArithmetic short width second operation) :=
  (Place.patient_read _ _).bind fun _ =>
    (ArithmeticData.patient_read short width).bind fun _ => patient_pure _

theorem readOutcome_arithmetic {first : UInt8} {short : Bool} {width : Width}
    (others : List UInt8)
    (known : Opcode.ofByte? first = some (.arithmeticImmediate short width)) :
    ReadOutcome (first :: others) := by
  have opened : ∀ {second : UInt8} {operation : Arithmetic} (behind : List UInt8),
      Arithmetic.ofCode? (Fields.ofByte second).register = some operation →
        read (first :: second :: behind) = readArithmetic short width second operation behind := by
    intro second operation behind found
    rw [read, bind_apply, byte_cons]
    simp only [known]
    rw [readOperands, bind_apply, byte_cons]
    simp only [found]
    rfl
  cases others with
  | nil =>
    -- The second byte is still to come, so a supported one may be chosen for it.
    have truncated : read [first] = .error .truncated := by
      rw [read, bind_apply, byte_cons]
      simp only [known]
      rfl
    have found : Arithmetic.ofCode? (Fields.ofByte 0).register = some .add := by decide
    rcases (patient_readArithmetic short width 0 .add).mends [] with
      ⟨encoding, rest, success⟩ | ⟨_, more, encoding, rest, success⟩
    · exact .ended truncated [0] encoding rest ((opened [] found).trans success)
    · exact .ended truncated (0 :: more) encoding rest ((opened more found).trans success)
  | cons second behind =>
    cases found : Arithmetic.ofCode? (Fields.ofByte second).register with
    | none => exact .refused 1 second (.operation behind known found)
    | some operation =>
      rcases (patient_readArithmetic short width second operation).mends behind with
        ⟨encoding, rest, success⟩ | ⟨truncated, more, encoding, rest, success⟩
      · exact .taken encoding rest ((opened behind found).trans success)
      · exact .ended ((opened behind found).trans truncated) more encoding rest
          ((opened (behind ++ more) found).trans success)

theorem readOutcome (input : List UInt8) : ReadOutcome input := by
  cases input with
  | nil =>
    have success := read_append (.branch .jnz 0) []
    exact .ended rfl _ _ _ success
  | cons first others =>
    cases known : Opcode.ofByte? first with
    | none => exact .refused 0 first (.opcode others known)
    | some opcode =>
      cases opcode with
      | immediateToRegister width register =>
        exact readOutcome_of_patient others known
          ((Data.patient_read width).bind fun _ => patient_pure _)
      | arithmeticImmediate short width => exact readOutcome_arithmetic others known
      | movImmediate spare width =>
        exact readOutcome_of_patient others known
          (patient_readPlace.bind fun _ => (Data.patient_read width).bind fun _ => patient_pure _)
      | immediateToAccumulator operation width =>
        exact readOutcome_of_patient others known
          ((Data.patient_read width).bind fun _ => patient_pure _)
      | branch jump =>
        exact readOutcome_of_patient others known (patient_byte.bind fun _ => patient_pure _)
      | registerMemory operation toRegister width =>
        exact readOutcome_of_patient others known
          (patient_readPlace.bind fun _ => patient_pure _)

/-! ## Input that ends too early -/

theorem not_bytes_of_refused {offset : Nat} {byte : UInt8} {input more : List UInt8}
    {encoding : Encoding} (refused : Refused offset byte input) :
    encoding.bytes ≠ input ++ more := by
  intro whole
  have failed := read_of_refused (refused.append more)
  have success := read_append encoding []
  rw [List.append_nil, whole, failed] at success
  cases success

/-- Only a proper part of an encoding ends too early. -/
theorem read_truncated_iff {input : List UInt8} :
    read input = .error .truncated ↔
      ∃ more, more ≠ [] ∧ ∃ encoding : Encoding, encoding.bytes = input ++ more := by
  constructor
  · intro truncated
    cases readOutcome input with
    | taken encoding rest success =>
      rw [truncated] at success
      cases success
    | refused offset byte cause =>
      rw [read_of_refused cause] at truncated
      cases truncated
    | ended _ more encoding rest success =>
      have whole := eq_of_read success
      -- An encoding that lies within the input would have been read.
      rcases List.append_eq_append_iff.mp whole with ⟨taken, longer, _⟩ | ⟨left, shorter, _⟩
      · refine ⟨taken, ?_, encoding, longer⟩
        rintro rfl
        rw [List.append_nil] at longer
        have read := read_append encoding []
        rw [List.append_nil, longer, truncated] at read
        cases read
      · rw [shorter, read_append] at truncated
        cases truncated
  · intro cut
    obtain ⟨more, proper, encoding, whole⟩ := cut
    cases readOutcome input with
    | ended truncated _ _ _ _ => exact truncated
    | refused offset byte cause => exact absurd whole (not_bytes_of_refused cause)
    | taken found rest success =>
      have front := eq_of_read success
      rw [front, List.append_assoc] at whole
      have nested : found.bytes ++ (rest ++ more) = encoding.bytes ++ [] := by
        rw [List.append_nil, whole]
      rw [eq_of_bytes_append nested] at whole
      have nothing : rest ++ more = [] := by simpa using whole
      exact absurd (List.append_eq_nil_iff.mp nothing).2 proper

end Encoding

/-! ## Whole encodings -/

/-- The bytes decode to an instruction that takes all of them. -/
def CompleteEncoding (signExtend : Bool) (code : List UInt8) : Prop :=
  ∃ instruction, Instruction.decodeOne signExtend code = .ok instruction ∧
    instruction.length = code.length

def StartsEncoding (signExtend : Bool) (input : List UInt8) : Prop :=
  ∃ code, code <+: input ∧ CompleteEncoding signExtend code

def EndsInside (signExtend : Bool) (input : List UInt8) : Prop :=
  ∃ more, more ≠ [] ∧ CompleteEncoding signExtend (input ++ more)

def Extendable (signExtend : Bool) (input : List UInt8) : Prop :=
  ∃ more, CompleteEncoding signExtend (input ++ more)

section

variable {signExtend : Bool} {input code : List UInt8}

theorem completeEncoding_iff :
    CompleteEncoding signExtend code ↔ ∃ encoding : Encoding, encoding.bytes = code := by
  constructor
  · intro complete
    obtain ⟨instruction, success, measured⟩ := complete
    obtain ⟨encoding, front, rfl⟩ := Instruction.decodeOne_eq_ok_iff.mp success
    exact ⟨encoding, front.eq_of_length measured⟩
  · intro written
    obtain ⟨encoding, rfl⟩ := written
    have success := Instruction.decodeOne_eq_ok_iff.mpr
      ⟨encoding, List.prefix_rfl, rfl (a := encoding.instruction signExtend)⟩
    exact ⟨_, success, rfl⟩

theorem endsInside_iff : EndsInside signExtend input ↔
    Encoding.read input = .error .truncated := by
  simp only [EndsInside, completeEncoding_iff, Encoding.read_truncated_iff]

theorem startsEncoding_iff : StartsEncoding signExtend input ↔
    ∃ instruction, Instruction.decodeOne signExtend input = .ok instruction := by
  simp only [StartsEncoding, completeEncoding_iff, Instruction.decodeOne_eq_ok_iff]
  constructor
  · intro starts
    obtain ⟨code, front, encoding, rfl⟩ := starts
    exact ⟨_, encoding, front, rfl⟩
  · intro starts
    obtain ⟨_, encoding, front, rfl⟩ := starts
    exact ⟨encoding.bytes, front, encoding, rfl⟩

theorem decodeOne_of_truncated (truncated : Encoding.read input = .error .truncated) :
    Instruction.decodeOne signExtend input =
      .error (.truncated 0 (input.length + 1) input.length) := by
  rw [Instruction.decodeOne_eq_map, Encoding.decodeOne_of_refusal truncated]
  rfl

theorem decodeOne_of_refused {offset : Nat} {byte : UInt8}
    (refused : Encoding.Refused offset byte input) :
    Instruction.decodeOne signExtend input = .error (.unsupported offset byte) := by
  rw [Instruction.decodeOne_eq_map,
    Encoding.decodeOne_of_refusal (Encoding.read_of_refused refused)]
  rfl

theorem decodeOne_outcome (signExtend : Bool) (input : List UInt8) :
    (∃ instruction, Instruction.decodeOne signExtend input = .ok instruction) ∨
      Encoding.read input = .error .truncated ∨
        ∃ offset byte, Encoding.Refused offset byte input := by
  cases Encoding.readOutcome input with
  | taken encoding rest success =>
    have front : encoding.bytes <+: input := ⟨rest, (Encoding.eq_of_read success).symm⟩
    exact .inl ⟨_, Instruction.decodeOne_eq_ok_iff.mpr ⟨encoding, front, rfl⟩⟩
  | ended truncated _ _ _ _ => exact .inr (.inl truncated)
  | refused offset byte cause => exact .inr (.inr ⟨offset, byte, cause⟩)

theorem refused_of_unsupported {offset : Nat} {byte : UInt8}
    (failed : Instruction.decodeOne signExtend input = .error (.unsupported offset byte)) :
    Encoding.Refused offset byte input := by
  rcases decodeOne_outcome signExtend input with ⟨instruction, success⟩ | truncated |
    ⟨found, other, refused⟩
  · rw [success] at failed
    cases failed
  · rw [decodeOne_of_truncated truncated] at failed
    cases failed
  · rw [decodeOne_of_refused refused] at failed
    cases failed
    exact refused

/-- The refused byte is the first one with which the input continues no encoding. -/
theorem extendable_of_refused {offset : Nat} {byte : UInt8}
    (refused : Encoding.Refused offset byte input) :
    Extendable signExtend (input.take offset) ∧
      ¬ Extendable signExtend (input.take (offset + 1)) := by
  simp only [Extendable, completeEncoding_iff]
  cases refused with
  | opcode rest unknown =>
    refine ⟨⟨_, .branch .jnz 0, rfl⟩, ?_⟩
    intro cut
    obtain ⟨more, encoding, whole⟩ := cut
    exact Encoding.not_bytes_of_refused (.opcode [] unknown) whole
  | @operation first second short width rest known unknown =>
    refine ⟨?_, ?_⟩
    · have truncated : Encoding.read [first] = .error .truncated := by
        rw [Encoding.read, Reader.bind_apply, Reader.byte_cons]
        simp only [known]
        rfl
      obtain ⟨more, _, whole⟩ := Encoding.read_truncated_iff.mp truncated
      exact ⟨more, whole⟩
    · intro cut
      obtain ⟨more, encoding, whole⟩ := cut
      exact Encoding.not_bytes_of_refused (.operation [] known unknown) whole

end

/-! ## The three cases -/

/-- What the decoder says of a byte string: it starts with one complete encoding, it is a proper
prefix of one, or neither. -/
structure PrefixCode (signExtend : Bool) (input : List UInt8) : Prop where
  ok_iff : (∃ instruction, Instruction.decodeOne signExtend input = .ok instruction) ↔
    StartsEncoding signExtend input
  unique : ∀ code other, code <+: input → other <+: input → CompleteEncoding signExtend code →
    CompleteEncoding signExtend other → code = other
  steady : ∀ code, code <+: input → CompleteEncoding signExtend code →
    Instruction.decodeOne signExtend input = Instruction.decodeOne signExtend code
  exclusive : ¬ (StartsEncoding signExtend input ∧ EndsInside signExtend input)
  truncated_iff : Instruction.decodeOne signExtend input =
      .error (.truncated 0 (input.length + 1) input.length) ↔ EndsInside signExtend input
  unsupported_iff : (∃ offset byte,
      Instruction.decodeOne signExtend input = .error (.unsupported offset byte)) ↔
    ¬ StartsEncoding signExtend input ∧ ¬ EndsInside signExtend input
  unsupported_exact : ∀ offset byte,
    Instruction.decodeOne signExtend input = .error (.unsupported offset byte) →
      offset ≤ 1 ∧ input[offset]? = some byte ∧ Extendable signExtend (input.take offset) ∧
        ¬ Extendable signExtend (input.take (offset + 1)) ∧
        ∀ more, Instruction.decodeOne signExtend (input ++ more) =
          .error (.unsupported offset byte)
  no_other_error : ∀ error, Instruction.decodeOne signExtend input = .error error →
    error = .truncated 0 (input.length + 1) input.length ∨
      ∃ offset byte, error = .unsupported offset byte

theorem not_startsEncoding_of_refused {signExtend : Bool} {input : List UInt8} {offset : Nat}
    {byte : UInt8} (refused : Encoding.Refused offset byte input) :
    ¬ StartsEncoding signExtend input := by
  rw [startsEncoding_iff]
  intro complete
  obtain ⟨instruction, success⟩ := complete
  rw [decodeOne_of_refused refused] at success
  cases success

theorem not_endsInside_of_refused {signExtend : Bool} {input : List UInt8} {offset : Nat}
    {byte : UInt8} (refused : Encoding.Refused offset byte input) :
    ¬ EndsInside signExtend input := by
  rw [endsInside_iff, Encoding.read_of_refused refused]
  intro same
  cases same

theorem decodeOne_prefixCode (signExtend : Bool) (input : List UInt8) :
    PrefixCode signExtend input where
  ok_iff := startsEncoding_iff.symm
  unique := by
    intro code other front otherFront complete otherComplete
    obtain ⟨encoding, rfl⟩ := completeEncoding_iff.mp complete
    obtain ⟨found, rfl⟩ := completeEncoding_iff.mp otherComplete
    obtain ⟨rest, whole⟩ := front
    obtain ⟨behind, same⟩ := otherFront
    rw [Encoding.eq_of_bytes_append (whole.trans same.symm)]
  steady := by
    intro code front complete
    obtain ⟨encoding, rfl⟩ := completeEncoding_iff.mp complete
    have whole := Encoding.decodeOne_eq_ok_iff.mpr front
    have alone := Encoding.decodeOne_eq_ok_iff.mpr (List.prefix_rfl (l := encoding.bytes))
    rw [Instruction.decodeOne_eq_map, Instruction.decodeOne_eq_map, whole, alone]
  exclusive := by
    rw [startsEncoding_iff, endsInside_iff]
    intro both
    obtain ⟨⟨instruction, success⟩, truncated⟩ := both
    rw [decodeOne_of_truncated truncated] at success
    cases success
  truncated_iff := by
    rw [endsInside_iff]
    constructor
    · intro failed
      rcases decodeOne_outcome signExtend input with ⟨instruction, success⟩ | truncated |
        ⟨offset, byte, refused⟩
      · rw [success] at failed
        cases failed
      · exact truncated
      · rw [decodeOne_of_refused refused] at failed
        cases failed
    · exact decodeOne_of_truncated
  unsupported_iff := by
    constructor
    · intro refused
      obtain ⟨offset, byte, failed⟩ := refused
      have refused := refused_of_unsupported failed
      exact ⟨not_startsEncoding_of_refused refused, not_endsInside_of_refused refused⟩
    · intro neither
      obtain ⟨noStart, noEnd⟩ := neither
      rcases decodeOne_outcome signExtend input with success | truncated | ⟨offset, byte, refused⟩
      · exact absurd (startsEncoding_iff.mpr success) noStart
      · exact absurd (endsInside_iff.mpr truncated) noEnd
      · exact ⟨offset, byte, decodeOne_of_refused refused⟩
  unsupported_exact := by
    intro offset byte failed
    have refused := refused_of_unsupported failed
    have bounds : Extendable signExtend (input.take offset) ∧
        ¬ Extendable signExtend (input.take (offset + 1)) := extendable_of_refused refused
    refine ⟨?_, ?_, bounds.1, bounds.2, fun more => decodeOne_of_refused (refused.append more)⟩
    · cases refused <;> decide
    · cases refused <;> rfl
  no_other_error := by
    intro error failed
    rcases decodeOne_outcome signExtend input with ⟨instruction, success⟩ | truncated |
      ⟨offset, byte, refused⟩
    · rw [success] at failed
      cases failed
    · rw [decodeOne_of_truncated truncated] at failed
      cases failed
      exact .inl rfl
    · rw [decodeOne_of_refused refused] at failed
      cases failed
      exact .inr ⟨offset, byte, rfl⟩

end Mini8086
