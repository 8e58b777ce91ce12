import Mini8086.Decoding.Reading
import Mini8086.Encoding.Lemmas

/-!
# Reading an instruction as reading its encoding

The decoder reads operands and constants byte by byte and asks for the setting while it does so.
What it finds is nevertheless the meaning of an encoding, which knows no setting, and the bytes it
takes are the encoding's.  Main statements, `Instruction.reading_of_ok` and
`Instruction.reading_of_refusal`: the remarks are those that can be made afterwards, and input that
is refused has drawn no remark.
-/

set_option autoImplicit false

namespace Mini8086

namespace Encoding

/-- The bit fields that are reported; accumulator and branch encodings report none. -/
def fieldNote? : Encoding → Option FieldNote
  | .immediateToRegister register data => some (.immediateToRegister data.width register)
  | .arithmeticImmediate _ place data =>
    some (.immediateToRegisterMemory data.sign data.width place.mode place.rm)
  | .movImmediate spare _ place data =>
    some (.immediateToRegisterMemory spare data.width place.mode place.rm)
  | .immediateToAccumulator .. | .branch .. => none
  | .registerMemory _ toRegister width register place =>
    some (.registerMemory toRegister width place.mode register place.rm)

def notes (signExtend : Bool) (encoding : Encoding) : List DecodeNote :=
  (encoding.fieldNote?.map .fields).toList ++
    [.instruction encoding.family (encoding.instruction signExtend)]

/-- The encoding at the front of a byte string, whatever it means. -/
def decodeOne (bytes : List UInt8) : Except DecodeError Encoding :=
  match read bytes with
  | .ok (encoding, _) => .ok encoding
  | .error .truncated => .error (.truncated 0 (bytes.length + 1) bytes.length)
  | .error (.unsupported offset byte) => .error (.unsupported offset byte)

def decoder : Decoder Encoding where
  decodeOne := decodeOne
  length := length

end Encoding

/-- The refusal of a byte string of this length, as the decoder reports it. -/
def Refusal.decodeError (length : Nat) : Refusal → DecodeError
  | .truncated => .truncated 0 (length + 1) length
  | .unsupported offset byte => .unsupported offset byte

theorem Encoding.decodeOne_of_refusal {bytes : List UInt8} {refusal : Refusal}
    (refused : read bytes = .error refusal) :
    decodeOne bytes = .error (refusal.decodeError bytes.length) := by
  rw [decodeOne, refused]
  cases refusal <;> rfl

/-! ## Two readers of one input -/

namespace Reading

/-- Behind the bytes in `front` the reading takes the bytes that the reader takes.  Its value is
what the reader's stands for at the position behind them, and it has made the remarks that `notes`
says; it fails where the reader refuses, and without a remark. -/
structure Follows {α β : Type} (reading : Reading α) (reader : Reader β) (means : Nat → β → α)
    (notes : β → List DecodeNote) : Prop where
  taken : ∀ (front : List UInt8) {bytes rest : List UInt8} {value : β},
    reader bytes = .ok (value, rest) → ∃ own, bytes = own ++ rest ∧
      reading ⟨front ++ bytes, front.length⟩ =
        ⟨.ok (means (front ++ own).length value), ⟨front ++ bytes, (front ++ own).length⟩,
          notes value⟩
  refused : ∀ (front : List UInt8) {bytes : List UInt8} {refusal : Refusal},
    reader bytes = .error refusal → ∃ reached,
      reading ⟨front ++ bytes, front.length⟩ =
        ⟨.error (refusal.decodeError (front ++ bytes).length), reached, []⟩

section Follows

variable {α β γ δ : Type} {notes : β → List DecodeNote} {means : Nat → β → α}

theorem follows_pure {reading : Reading α} {value : β}
    (remarks : ∀ reader,
      reading reader = ⟨.ok (means reader.position value), reader, notes value⟩) :
    Follows reading (pure value) means notes where
  taken := by
    intro front bytes rest found taken
    cases taken
    refine ⟨[], rfl, ?_⟩
    rw [remarks, List.append_nil]
  refused := by
    intro front bytes refusal refused
    cases refused

theorem follows_fail {error : DecodeError} {refusal : Refusal}
    (same : ∀ length, refusal.decodeError length = error) :
    Follows (Transition.fail error) (Reader.refuse refusal) means notes where
  taken := by
    intro front bytes rest value taken
    cases taken
  refused := by
    intro front bytes other refused
    cases refused
    rw [same]
    exact ⟨_, rfl⟩

theorem follows_byte :
    Follows byte Reader.byte (fun _ value => value) (fun _ => []) where
  taken := by
    intro front bytes rest value taken
    obtain rfl := Reader.eq_of_byte taken
    refine ⟨[value], rfl, ?_⟩
    simp [byte]
  refused := by
    intro front bytes refusal refused
    cases bytes with
    | cons first others => cases refused
    | nil =>
      cases refused
      simp [byte, Refusal.decodeError]

theorem Follows.bind {first : Reading γ} {firstReader : Reader δ} {firstMeans : δ → γ}
    {next : γ → Reading α} {nextReader : δ → Reader β}
    (follows : Follows first firstReader (fun _ => firstMeans) (fun _ => []))
    (continues : ∀ {bytes rest : List UInt8} {value : δ}, firstReader bytes = .ok (value, rest) →
      Follows (next (firstMeans value)) (nextReader value) means notes) :
    Follows (first >>= next) (firstReader >>= nextReader) means notes where
  taken := by
    intro front bytes rest value taken
    rw [Reader.bind_apply] at taken
    cases found : firstReader bytes with
    | error refusal =>
      rw [found] at taken
      cases taken
    | ok pair =>
      rw [found] at taken
      obtain ⟨own, rfl, read⟩ := follows.taken front found
      obtain ⟨more, behind, later⟩ := (continues found).taken (front ++ own) taken
      refine ⟨own ++ more, by rw [behind, List.append_assoc], ?_⟩
      rw [List.append_assoc] at later
      rw [Transition.bind_of_ok _ read, later, List.append_assoc]
      rfl
  refused := by
    intro front bytes refusal refused
    rw [Reader.bind_apply] at refused
    cases found : firstReader bytes with
    | error same =>
      rw [found] at refused
      cases refused
      obtain ⟨reached, failed⟩ := follows.refused front found
      exact ⟨reached, Transition.bind_of_error _ failed⟩
    | ok pair =>
      rw [found] at refused
      obtain ⟨own, rfl, read⟩ := follows.taken front found
      obtain ⟨reached, later⟩ := (continues found).refused (front ++ own) refused
      rw [List.append_assoc] at later
      refine ⟨reached, ?_⟩
      rw [Transition.bind_of_ok _ read, later]
      rfl

end Follows

/-! ## Constants and places -/

theorem Follows.map {α β γ δ : Type} {first : Reading γ} {firstReader : Reader δ}
    {firstMeans : δ → γ} {make : γ → α} {makeReader : δ → β} {means : β → α}
    (follows : Follows first firstReader (fun _ => firstMeans) (fun _ => []))
    (same : ∀ value, make (firstMeans value) = means (makeReader value)) :
    Follows (do let value ← first; return make value)
      (do let value ← firstReader; return makeReader value) (fun _ => means) (fun _ => []) := by
  apply follows.bind
  intro bytes rest value _
  apply follows_pure
  intro reader
  rw [same]
  rfl

theorem follows_word : Follows word Reader.word (fun _ value => value) (fun _ => []) := by
  apply follows_byte.bind
  intro bytes rest low _
  exact follows_byte.map fun _ => rfl

theorem follows_data (width : Width) :
    Follows (data width) (Data.read width) (fun _ => Data.immediate) (fun _ => []) := by
  cases width with
  | byte => exact follows_byte.map fun _ => rfl
  | word => exact follows_word.map fun _ => rfl

/-- The setting chooses between two values of the one byte that was taken. -/
theorem follows_arithmeticData (signExtend sign : Bool) (width : Width) :
    Follows (arithmeticData signExtend sign width) (ArithmeticData.read sign width)
      (fun _ => ArithmeticData.immediate signExtend) (fun _ => []) := by
  cases width with
  | byte => exact follows_byte.map fun _ => rfl
  | word =>
    cases sign with
    | false => exact follows_word.map fun _ => rfl
    | true => exact follows_byte.map fun _ => rfl

theorem follows_registerOrMemory (mode : Fin 4) (rm : Octal) (width : Width) :
    Follows (registerOrMemory mode rm width) (Place.read mode rm)
      (fun _ place => place.operand width) (fun _ => []) := by
  match mode with
  | 0 =>
    by_cases bp : Base.ofCode rm = .bp
    · simp only [registerOrMemory, Place.read, bp]
      exact follows_word.map fun _ => rfl
    · simp only [registerOrMemory, Place.read]
      rw [if_pos bp, dif_pos bp]
      exact follows_pure fun _ => rfl
  | 1 => exact follows_byte.map fun _ => rfl
  | 2 => exact follows_word.map fun _ => rfl
  | 3 => exact follows_pure fun _ => rfl

/-! ## Families -/

/-- The meaning of an encoding whose last byte is at this position. -/
def meaningAt (signExtend : Bool) (position : Nat) (encoding : Encoding) : Instruction :=
  { encoding.instruction signExtend with length := position }

theorem readPlace_bind {α : Type} (next : Octal × Place → Reader α) :
    Encoding.readPlace >>= next =
      (do
        let second ← Reader.byte
        let place ← Place.read (Fields.ofByte second).mode (Fields.ofByte second).rm
        next ((Fields.ofByte second).register, place)) := by
  funext bytes
  cases bytes with
  | nil => rfl
  | cons second others =>
    simp only [Encoding.readPlace, Reader.bind_apply, Reader.byte_cons]
    cases Place.read (Fields.ofByte second).mode (Fields.ofByte second).rm others <;> rfl

theorem follows_operands (signExtend : Bool) (opcode : Opcode) :
    Follows (operands signExtend opcode) (Encoding.readOperands opcode) (meaningAt signExtend)
      (fun encoding => (encoding.fieldNote?.map .fields).toList) := by
  -- What was read has the fields that it was read by, so its remark shows them.
  cases opcode with
  | immediateToRegister width register =>
    apply (follows_data width).bind
    intro bytes rest data taken
    obtain ⟨rfl, _⟩ := Data.eq_of_read taken
    exact follows_pure fun _ => rfl
  | arithmeticImmediate sign width =>
    apply follows_byte.bind
    intro bytes rest second _
    cases known : Arithmetic.ofCode? (Fields.ofByte second).register with
    | none =>
      simp only [known]
      exact follows_fail fun _ => rfl
    | some operation =>
      simp only [known]
      apply (follows_registerOrMemory _ _ width).bind
      intro bytes rest place placed
      obtain ⟨modes, codes, _⟩ := Place.eq_of_read placed
      apply (follows_arithmeticData signExtend sign width).bind
      intro bytes rest data taken
      obtain ⟨rfl, rfl, _⟩ := ArithmeticData.eq_of_read taken
      rw [← modes, ← codes]
      exact follows_pure fun _ => rfl
  | movImmediate spare width =>
    rw [Encoding.readOperands, readPlace_bind]
    apply follows_byte.bind
    intro bytes rest second _
    apply (follows_registerOrMemory _ _ width).bind
    intro bytes rest place placed
    obtain ⟨modes, codes, _⟩ := Place.eq_of_read placed
    apply (follows_data width).bind
    intro bytes rest data taken
    obtain ⟨rfl, _⟩ := Data.eq_of_read taken
    rw [← modes, ← codes]
    exact follows_pure fun _ => rfl
  | immediateToAccumulator operation width =>
    apply (follows_data width).bind
    intro bytes rest data taken
    obtain ⟨rfl, _⟩ := Data.eq_of_read taken
    exact follows_pure fun _ => rfl
  | branch jump =>
    apply follows_byte.bind
    intro bytes rest displacement _
    exact follows_pure fun _ => rfl
  | registerMemory operation toRegister width =>
    rw [Encoding.readOperands, readPlace_bind]
    apply follows_byte.bind
    intro bytes rest second _
    apply (follows_registerOrMemory _ _ width).bind
    intro bytes rest place placed
    obtain ⟨modes, codes, _⟩ := Place.eq_of_read placed
    rw [← modes, ← codes]
    cases toRegister <;> exact follows_pure fun _ => rfl

end Reading

/-! ## Whole instructions -/

namespace Instruction

section Reading

variable (signExtend : Bool) {first : UInt8} {others : List UInt8}

theorem reading_of_unknown (unknown : Opcode.ofByte? first = none) :
    reading signExtend ⟨first :: others, 0⟩ =
      ⟨.error (.unsupported 0 first), ⟨first :: others, 1⟩, []⟩ := by
  have taken : Reading.byte ⟨first :: others, 0⟩ = ⟨.ok first, ⟨first :: others, 1⟩, []⟩ := rfl
  rw [reading, Transition.bind_of_ok _ taken]
  simp only [unknown]
  rfl

theorem reading_of_opcode {opcode : Opcode} (known : Opcode.ofByte? first = some opcode) :
    reading signExtend ⟨first :: others, 0⟩ =
      (do
        let decoded ← Reading.operands signExtend opcode
        Transition.report (.instruction opcode.family decoded)
        return decoded : Reading Instruction) ⟨[first] ++ others, [first].length⟩ := by
  have taken : Reading.byte ⟨first :: others, 0⟩ = ⟨.ok first, ⟨first :: others, 1⟩, []⟩ := rfl
  rw [reading, Transition.bind_of_ok _ taken]
  simp only [known]
  rfl

variable {bytes rest : List UInt8}

theorem reading_of_ok {encoding : Encoding} (taken : Encoding.read bytes = .ok (encoding, rest)) :
    reading signExtend ⟨bytes, 0⟩ =
      ⟨.ok (encoding.instruction signExtend), ⟨bytes, encoding.length⟩,
        encoding.notes signExtend⟩ := by
  have written := Encoding.eq_of_read taken
  cases bytes with
  | nil => cases taken
  | cons first others =>
    rw [Encoding.read, Reader.bind_apply, Reader.byte_cons] at taken
    cases known : Opcode.ofByte? first with
    | none =>
      simp only [known] at taken
      cases taken
    | some opcode =>
      simp only [known] at taken
      obtain ⟨own, rfl, read⟩ :=
        (Reading.follows_operands signExtend opcode).taken [first] taken
      obtain ⟨rfl, _⟩ := Encoding.eq_of_readOperands taken
      have length : ([first] ++ own).length = encoding.length := by
        have whole : ([first] ++ own) ++ rest = encoding.bytes ++ rest := written
        rw [List.append_cancel_right whole, Encoding.length]
      rw [length] at read
      rw [reading_of_opcode signExtend known, Transition.bind_of_ok _ read]
      rfl

theorem reading_of_refusal {refusal : Refusal} (refused : Encoding.read bytes = .error refusal) :
    ∃ reached, reading signExtend ⟨bytes, 0⟩ =
      ⟨.error (refusal.decodeError bytes.length), reached, []⟩ := by
  cases bytes with
  | nil =>
    cases refused
    exact ⟨_, rfl⟩
  | cons first others =>
    rw [Encoding.read, Reader.bind_apply, Reader.byte_cons] at refused
    cases known : Opcode.ofByte? first with
    | none =>
      simp only [known] at refused
      cases refused
      exact ⟨_, reading_of_unknown signExtend known⟩
    | some opcode =>
      simp only [known] at refused
      obtain ⟨reached, failed⟩ :=
        (Reading.follows_operands signExtend opcode).refused [first] refused
      refine ⟨reached, ?_⟩
      rw [reading_of_opcode signExtend known, Transition.bind_of_error _ failed]
      rfl

end Reading

variable (signExtend : Bool) (bytes : List UInt8)

/-- What the reading comes to, whichever way it ends. -/
theorem exists_reading_eq : ∃ reached, reading signExtend ⟨bytes, 0⟩ =
    match Encoding.decodeOne bytes with
    | .ok encoding =>
      ⟨.ok (encoding.instruction signExtend), reached, encoding.notes signExtend⟩
    | .error error => ⟨.error error, reached, []⟩ := by
  cases found : Encoding.read bytes with
  | ok pair =>
    rw [reading_of_ok signExtend found, Encoding.decodeOne, found]
    exact ⟨_, rfl⟩
  | error refusal =>
    obtain ⟨reached, failed⟩ := reading_of_refusal signExtend found
    rw [failed, Encoding.decodeOne_of_refusal found]
    exact ⟨reached, rfl⟩

theorem decodeOne_eq_map : decodeOne signExtend bytes =
    (Encoding.decodeOne bytes).map (Encoding.instruction signExtend) := by
  obtain ⟨reached, same⟩ := exists_reading_eq signExtend bytes
  rw [decodeOne, same]
  cases Encoding.decodeOne bytes <;> rfl

theorem decodeOneNotes_eq : decodeOneNotes signExtend bytes =
    match Encoding.decodeOne bytes with
    | .ok encoding => encoding.notes signExtend
    | .error _ => [] := by
  obtain ⟨reached, same⟩ := exists_reading_eq signExtend bytes
  rw [decodeOneNotes, same]
  cases Encoding.decodeOne bytes <;> rfl

theorem decodeOne_decoderWithNotes : (decoderWithNotes signExtend).decodeOne bytes =
    (Encoding.decodeOne bytes).map fun encoding =>
      (encoding.instruction signExtend, encoding.notes signExtend) := by
  obtain ⟨reached, same⟩ := exists_reading_eq signExtend bytes
  simp only [decoderWithNotes, same]
  cases Encoding.decodeOne bytes <;> rfl

end Instruction
end Mini8086
