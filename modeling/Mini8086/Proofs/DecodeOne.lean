import Mini8086.Decoding.Reading
import Mini8086.Proofs.Reading

/-!
# Decoding at the front of a byte string

The decoder yields an instruction exactly when the bytes of an encoding stand in front, and the
instruction is as long as that encoding, which takes two to six bytes.
-/

set_option autoImplicit false

namespace Mini8086

/-! ## How many bytes an encoding takes -/

theorem Data.length_bytes (data : Data) : data.bytes.length = data.width.bytes := by
  cases data <;> rfl

theorem ArithmeticData.length_bytes (data : ArithmeticData) :
    data.bytes.length = if data.sign then 1 else data.width.bytes := by
  rcases data with ⟨_ | _, _⟩ | _ | _ <;> rfl

theorem Place.length_bytes_le (place : Place) : place.bytes.length ≤ 2 := by
  cases place <;> simp [Place.bytes, Word.bytes]

theorem Width.bytes_bounds (width : Width) : 1 ≤ width.bytes ∧ width.bytes ≤ 2 := by
  cases width <;> decide

namespace Encoding

theorem length_bounds (encoding : Encoding) : 2 ≤ encoding.length ∧ encoding.length ≤ 6 := by
  cases encoding with
  | immediateToRegister code data =>
    have bounds := data.width.bytes_bounds
    simp only [length, bytes, operandBytes, List.length_cons, Data.length_bytes]
    omega
  | arithmeticImmediate operation place data =>
    have bounds := data.width.bytes_bounds
    have short := place.length_bytes_le
    simp only [length, bytes, operandBytes, placeBytes, List.length_cons, List.length_append,
      ArithmeticData.length_bytes]
    split <;> omega
  | movImmediate spare unused place data =>
    have bounds := data.width.bytes_bounds
    have short := place.length_bytes_le
    simp only [length, bytes, operandBytes, placeBytes, List.length_cons, List.length_append,
      Data.length_bytes]
    omega
  | immediateToAccumulator operation data =>
    have bounds := data.width.bytes_bounds
    simp only [length, bytes, operandBytes, List.length_cons, Data.length_bytes]
    omega
  | branch jump displacement =>
    have two : (Encoding.branch jump displacement).length = 2 := rfl
    omega
  | registerMemory operation toRegister width code place =>
    have short := place.length_bytes_le
    simp only [length, bytes, operandBytes, placeBytes, List.length_cons]
    omega

/-! ## What is accepted -/

theorem decodeOne_eq_ok_iff {input : List UInt8} {encoding : Encoding} :
    decodeOne input = .ok encoding ↔ encoding.bytes <+: input := by
  rw [decodeOne]
  constructor
  · intro success
    split at success
    · next found rest taken =>
      cases success
      exact ⟨rest, (read_eq_ok_iff.mp taken).symm⟩
    · cases success
    · cases success
  · intro front
    obtain ⟨rest, written⟩ := front
    rw [read_eq_ok_iff.mpr written.symm]

end Encoding

theorem Instruction.decodeOne_eq_ok_iff {signExtend : Bool} {input : List UInt8}
    {instruction : Instruction} :
    Instruction.decodeOne signExtend input = .ok instruction ↔
      ∃ encoding : Encoding, encoding.bytes <+: input ∧
        encoding.instruction signExtend = instruction := by
  rw [Instruction.decodeOne_eq_map]
  constructor
  · intro success
    cases found : Encoding.decodeOne input with
    | error error =>
      rw [found] at success
      cases success
    | ok encoding =>
      rw [found] at success
      cases success
      exact ⟨encoding, Encoding.decodeOne_eq_ok_iff.mp found, rfl⟩
  · intro written
    obtain ⟨encoding, front, rfl⟩ := written
    rw [Encoding.decodeOne_eq_ok_iff.mpr front]
    rfl

end Mini8086
