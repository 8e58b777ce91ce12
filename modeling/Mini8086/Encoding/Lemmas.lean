import Mini8086.Encoding.Basic

/-!
# Reading undoes writing

Main statement, `Encoding.read_eq_ok_iff`: the reader accepts a byte string exactly when it starts
with the bytes of an encoding, and then it yields that encoding and what is left. So the bytes
determine the encoding, and what follows an encoding never changes how it is read.
-/

set_option autoImplicit false

namespace Mini8086

/-! ## Words and constants -/

theorem Reader.word_append (word : UInt16) (rest : List UInt8) :
    Reader.word (Word.bytes word ++ rest) = .ok (word, rest) := by
  simp [Word.bytes]

theorem Reader.eq_of_word {bytes rest : List UInt8} {word : UInt16}
    (success : Reader.word bytes = .ok (word, rest)) : bytes = Word.bytes word ++ rest := by
  match bytes with
  | [] => cases success
  | [_] => cases success
  | low :: high :: others =>
    rw [Reader.word_cons_cons] at success
    cases success
    simp [Word.bytes]

theorem Reader.eq_of_byte {bytes rest : List UInt8} {byte : UInt8}
    (success : Reader.byte bytes = .ok (byte, rest)) : bytes = byte :: rest := by
  cases bytes with
  | nil => cases success
  | cons first others => cases success; rfl

theorem Reader.map_eq_ok {α β : Type} {reader : Reader α} {make : α → β} {bytes rest : List UInt8}
    {made : β}
    (success : (do let value ← reader; return make value : Reader β) bytes = .ok (made, rest)) :
    ∃ value, reader bytes = .ok (value, rest) ∧ made = make value := by
  rw [Reader.bind_apply] at success
  cases read : reader bytes with
  | error refusal => rw [read] at success; cases success
  | ok pair => rw [read] at success; cases success; exact ⟨_, rfl, rfl⟩

theorem Data.read_append (data : Data) (rest : List UInt8) :
    Data.read data.width (data.bytes ++ rest) = .ok (data, rest) := by
  cases data <;> simp [read, width, bytes, Reader.bind_apply, Reader.pure_apply, Reader.word_append]

theorem Data.eq_of_read {width : Width} {bytes rest : List UInt8} {data : Data}
    (success : Data.read width bytes = .ok (data, rest)) :
    data.width = width ∧ bytes = data.bytes ++ rest := by
  cases width with
  | byte =>
    obtain ⟨value, taken, rfl⟩ := Reader.map_eq_ok success
    exact ⟨rfl, Reader.eq_of_byte taken⟩
  | word =>
    obtain ⟨value, taken, rfl⟩ := Reader.map_eq_ok success
    exact ⟨rfl, Reader.eq_of_word taken⟩

theorem ArithmeticData.read_append (data : ArithmeticData) (rest : List UInt8) :
    ArithmeticData.read data.sign data.width (data.bytes ++ rest) = .ok (data, rest) := by
  cases data <;>
    simp [read, sign, width, bytes, Reader.bind_apply, Reader.pure_apply, Reader.word_append]

theorem ArithmeticData.eq_of_read {sign : Bool} {width : Width} {bytes rest : List UInt8}
    {data : ArithmeticData} (success : ArithmeticData.read sign width bytes = .ok (data, rest)) :
    data.sign = sign ∧ data.width = width ∧ bytes = data.bytes ++ rest := by
  cases width with
  | byte =>
    obtain ⟨value, taken, rfl⟩ := Reader.map_eq_ok success
    exact ⟨rfl, rfl, Reader.eq_of_byte taken⟩
  | word =>
    cases sign with
    | false =>
      obtain ⟨value, taken, rfl⟩ := Reader.map_eq_ok success
      exact ⟨rfl, rfl, Reader.eq_of_word taken⟩
    | true =>
      obtain ⟨value, taken, rfl⟩ := Reader.map_eq_ok success
      exact ⟨rfl, rfl, Reader.eq_of_byte taken⟩

/-! ## Places -/

theorem Place.read_append (place : Place) (rest : List UInt8) :
    Place.read place.mode place.rm (place.bytes ++ rest) = .ok (place, rest) := by
  cases place with
  | register code => rfl
  | direct address =>
    simp [read, mode, rm, bytes, Reader.bind_apply, Reader.pure_apply, Reader.word_append]
  | plain base notBp => simp [read, mode, rm, bytes, notBp, Reader.pure_apply]
  | near base displacement =>
    simp [read, mode, rm, bytes, Reader.bind_apply, Reader.pure_apply]
  | far base displacement =>
    simp [read, mode, rm, bytes, Reader.bind_apply, Reader.pure_apply, Reader.word_append]

theorem Place.eq_of_read {mode : Fin 4} {rm : Octal} {bytes rest : List UInt8} {place : Place}
    (success : Place.read mode rm bytes = .ok (place, rest)) :
    place.mode = mode ∧ place.rm = rm ∧ bytes = place.bytes ++ rest := by
  match mode with
  | 0 =>
    by_cases bp : Base.ofCode rm = .bp
    · have direct : (do let address ← Reader.word; return .direct address : Reader Place) bytes =
          .ok (place, rest) := by
        simpa [read, bp] using success
      obtain ⟨address, taken, rfl⟩ := Reader.map_eq_ok direct
      refine ⟨rfl, ?_, Reader.eq_of_word taken⟩
      rw [Place.rm, ← bp, Base.code_ofCode]
    · have taken : (.ok (Place.plain (Base.ofCode rm) bp, bytes) : Except Refusal _) =
          .ok (place, rest) := by
        simpa [read, bp, Reader.pure_apply] using success
      cases taken
      exact ⟨rfl, Base.code_ofCode rm, rfl⟩
  | 1 =>
    obtain ⟨displacement, taken, rfl⟩ := Reader.map_eq_ok success
    refine ⟨rfl, Base.code_ofCode rm, ?_⟩
    rw [Reader.eq_of_byte taken]
    simp [Place.bytes]
  | 2 =>
    obtain ⟨displacement, taken, rfl⟩ := Reader.map_eq_ok success
    refine ⟨rfl, Base.code_ofCode rm, ?_⟩
    rw [Reader.eq_of_word taken]
    simp [Place.bytes]
  | 3 =>
    cases success
    exact ⟨rfl, rfl, rfl⟩

namespace Encoding

theorem readPlace_append (register : Octal) (place : Place) (rest : List UInt8) :
    readPlace (placeBytes register place ++ rest) = .ok ((register, place), rest) := by
  simp [readPlace, placeBytes, Reader.bind_apply, Reader.pure_apply, Place.read_append]

theorem eq_placeBytes {second : UInt8} {place : Place} {bytes rest : List UInt8}
    (success : Place.read (Fields.ofByte second).mode (Fields.ofByte second).rm bytes =
      .ok (place, rest)) :
    second :: bytes = placeBytes (Fields.ofByte second).register place ++ rest := by
  obtain ⟨modes, codes, rfl⟩ := Place.eq_of_read success
  rw [placeBytes, modes, codes]
  simp only [List.cons_append]
  rw [Fields.byte_ofByte]

theorem eq_of_readPlace {bytes rest : List UInt8} {register : Octal} {place : Place}
    (success : readPlace bytes = .ok ((register, place), rest)) :
    bytes = placeBytes register place ++ rest := by
  cases bytes with
  | nil => cases success
  | cons second others =>
    have taken : (do
        let place ← Place.read (Fields.ofByte second).mode (Fields.ofByte second).rm
        return ((Fields.ofByte second).register, place) : Reader (Octal × Place)) others =
          .ok ((register, place), rest) := success
    obtain ⟨found, taken, equal⟩ := Reader.map_eq_ok taken
    cases equal
    exact eq_placeBytes taken

/-! ## Encodings -/

theorem read_append (encoding : Encoding) (rest : List UInt8) :
    read (encoding.bytes ++ rest) = .ok (encoding, rest) := by
  cases encoding <;>
    simp [bytes, read, opcode, readOperands, operandBytes, Reader.bind_apply, Reader.pure_apply,
      readPlace_append, Data.read_append]
  case arithmeticImmediate operation place data =>
    simp [placeBytes, Reader.bind_apply, Reader.pure_apply, Place.read_append,
      ArithmeticData.read_append]

theorem eq_of_readOperands {opcode : Opcode} {bytes rest : List UInt8} {encoding : Encoding}
    (success : readOperands opcode bytes = .ok (encoding, rest)) :
    encoding.opcode = opcode ∧ bytes = encoding.operandBytes ++ rest := by
  cases opcode with
  | immediateToRegister width register =>
    obtain ⟨data, taken, rfl⟩ := Reader.map_eq_ok success
    obtain ⟨rfl, rfl⟩ := Data.eq_of_read taken
    exact ⟨rfl, rfl⟩
  | arithmeticImmediate sign width =>
    cases bytes with
    | nil => cases success
    | cons second others =>
      rw [readOperands, Reader.bind_apply, Reader.byte_cons] at success
      cases known : Arithmetic.ofCode? (Fields.ofByte second).register with
      | none =>
        simp only [known] at success
        cases success
      | some operation =>
        simp only [known, Reader.bind_apply] at success
        cases placed : Place.read (Fields.ofByte second).mode (Fields.ofByte second).rm others with
        | error refusal => rw [placed] at success; cases success
        | ok pair =>
          obtain ⟨place, behind⟩ := pair
          rw [placed] at success
          obtain ⟨data, taken, rfl⟩ := Reader.map_eq_ok success
          obtain ⟨rfl, rfl, rfl⟩ := ArithmeticData.eq_of_read taken
          refine ⟨rfl, ?_⟩
          rw [eq_placeBytes placed, operandBytes, Arithmetic.code_of_ofCode? known,
            List.append_assoc]
  | movImmediate spare width =>
    rw [readOperands, Reader.bind_apply] at success
    cases placed : readPlace bytes with
    | error refusal => rw [placed] at success; cases success
    | ok pair =>
      obtain ⟨⟨unused, place⟩, behind⟩ := pair
      rw [placed] at success
      obtain ⟨data, taken, rfl⟩ := Reader.map_eq_ok success
      obtain ⟨rfl, rfl⟩ := Data.eq_of_read taken
      refine ⟨rfl, ?_⟩
      rw [eq_of_readPlace placed, operandBytes, List.append_assoc]
  | immediateToAccumulator operation width =>
    obtain ⟨data, taken, rfl⟩ := Reader.map_eq_ok success
    obtain ⟨rfl, rfl⟩ := Data.eq_of_read taken
    exact ⟨rfl, rfl⟩
  | branch jump =>
    obtain ⟨displacement, taken, rfl⟩ := Reader.map_eq_ok success
    refine ⟨rfl, ?_⟩
    rw [Reader.eq_of_byte taken]
    simp [operandBytes]
  | registerMemory operation toRegister width =>
    obtain ⟨⟨register, place⟩, taken, rfl⟩ := Reader.map_eq_ok success
    exact ⟨rfl, eq_of_readPlace taken⟩

theorem eq_of_read {bytes rest : List UInt8} {encoding : Encoding}
    (success : read bytes = .ok (encoding, rest)) : bytes = encoding.bytes ++ rest := by
  cases bytes with
  | nil => cases success
  | cons first others =>
    rw [read, Reader.bind_apply, Reader.byte_cons] at success
    cases known : Opcode.ofByte? first with
    | none =>
      simp only [known] at success
      cases success
    | some opcode =>
      simp only [known] at success
      obtain ⟨rfl, rfl⟩ := eq_of_readOperands success
      rw [Encoding.bytes, Opcode.byte_eq_of_ofByte? known, List.cons_append]

theorem read_eq_ok_iff {bytes rest : List UInt8} {encoding : Encoding} :
    read bytes = .ok (encoding, rest) ↔ bytes = encoding.bytes ++ rest := by
  constructor
  · exact eq_of_read
  · rintro rfl
    exact read_append encoding rest

/-- Two encodings of which one starts the other are the same. -/
theorem eq_of_bytes_append {left right : Encoding} {more rest : List UInt8}
    (same : left.bytes ++ more = right.bytes ++ rest) : left = right := by
  have found := read_append left more
  rw [same, read_append] at found
  cases found
  rfl

end Encoding
end Mini8086
