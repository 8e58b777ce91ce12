import Mini8086.Proofs.Image
import Mini8086.Proofs.PrefixCode

/-!
# Decoding images that are put together

An image is a row of encodings with something behind it that is no whole encoding: nothing, the
beginning of an encoding, or a byte that continues none.  Main statement,
`Program.decode_compositional`: behind an image that decodes, another one is decoded as it is on its
own, with its offsets moved; a byte that is refused stays refused whatever follows; and input is
called truncated exactly when something can be put behind it.
-/

set_option autoImplicit false

namespace Mini8086

/-! ## Sweeps at another offset -/

/-- Where the bytes lie in an image shows in the offset of an error and nowhere else, for a decoder
whose errors lie in the input. -/
theorem Decoder.result_sweepFrom_add {ι : Type} {decoder : Decoder ι}
    (inside : ∀ {bytes : List UInt8} {error : DecodeError}, decoder.decodeOne bytes = .error error →
      error.offset ≤ Offset.imageLimit) (base offset : Nat) (bytes : List UInt8) :
    (decoder.sweepFrom (base + offset) bytes).result =
      (decoder.sweepFrom offset bytes).result.mapError (DecodeError.shift base) := by
  induction size : bytes.length using Nat.strongRecOn generalizing offset bytes with
  | ind count ih =>
    cases bytes with
    | nil =>
      rw [sweepFrom, sweepFrom]
      rfl
    | cons first others =>
      have some_bytes : first :: others ≠ [] := List.cons_ne_nil first others
      cases decoded : decoder.decodeOne (first :: others) with
      | error error =>
        rw [sweepFrom_of_error some_bytes decoded, sweepFrom_of_error some_bytes decoded,
          DecodeError.rebase_eq_shift (inside decoded),
          DecodeError.rebase_eq_shift (inside decoded), ← DecodeError.shift_shift]
        rfl
      | ok item =>
        rw [sweepFrom_of_ok some_bytes decoded, sweepFrom_of_ok some_bytes decoded]
        by_cases empty : decoder.length item = 0
        · rw [if_pos empty, if_pos empty]
          rfl
        · rw [if_neg empty, if_neg empty]
          by_cases fits : decoder.length item ≤ (first :: others).length
          · have shorter : ((first :: others).drop (decoder.length item)).length < count := by
              rw [List.length_drop]
              omega
            rw [if_pos fits, if_pos fits, result_prepend, result_prepend, Nat.add_assoc,
              ih _ shorter _ _ rfl]
            cases (decoder.sweepFrom (offset + decoder.length item)
              ((first :: others).drop (decoder.length item))).result <;> rfl
          · rw [if_neg fits, if_neg fits]
            rfl

namespace Encoding

/-! ## What lies behind the encodings -/

theorem offset_le_of_error {bytes : List UInt8} {error : DecodeError}
    (failed : decodeOne bytes = .error error) : error.offset ≤ Offset.imageLimit := by
  have front : error.offset ≤ 1 := by
    cases readOutcome bytes with
    | taken encoding rest success =>
      rw [decodeOne, success] at failed
      cases failed
    | ended truncated _ _ _ _ =>
      rw [decodeOne_of_refusal truncated] at failed
      cases failed
      exact Nat.zero_le 1
    | refused offset byte cause =>
      rw [decodeOne_of_refusal (read_of_refused cause)] at failed
      cases failed
      cases cause with
      | opcode => exact Nat.zero_le 1
      | operation => exact Nat.le_refl 1
  exact Nat.le_trans front (by decide)

theorem sweepFrom_of_error (offset : Nat) {bytes : List UInt8} {error : DecodeError}
    (some_bytes : bytes ≠ []) (failed : decodeOne bytes = .error error) :
    decoder.sweepFrom offset bytes = .failed (error.shift offset) := by
  rw [Decoder.sweepFrom_of_error some_bytes failed,
    DecodeError.rebase_eq_shift (offset_le_of_error failed)]

theorem decode_of_error {bytes : List UInt8} {error : DecodeError} (some_bytes : bytes ≠ [])
    (failed : decodeOne bytes = .error error) : decoder.decode bytes = .error error := by
  rw [Decoder.decode, Decoder.sweep, sweepFrom_of_error 0 some_bytes failed,
    DecodeError.shift_zero]
  rfl

theorem sweepFrom_bytes_append (offset : Nat) (encoding : Encoding) (rest : List UInt8) :
    decoder.sweepFrom offset (encoding.bytes ++ rest) =
      (decoder.sweepFrom (offset + encoding.length) rest).prepend
        ⟨offset, encoding.length, encoding⟩ := by
  have bounds := encoding.length_bounds
  have decoded : decoder.decodeOne (encoding.bytes ++ rest) = .ok encoding :=
    decodeOne_eq_ok_iff.mpr (List.prefix_append encoding.bytes rest)
  have some_length : decoder.length encoding ≠ 0 := by
    intro nothing
    have none_left : encoding.length = 0 := nothing
    omega
  have some_bytes : encoding.bytes ++ rest ≠ [] := by
    intro nothing
    have none_left := congrArg List.length (List.append_eq_nil_iff.mp nothing).1
    exact some_length none_left
  have fits : decoder.length encoding ≤ (encoding.bytes ++ rest).length := by
    rw [List.length_append]
    exact Nat.le_add_right _ _
  have left : (encoding.bytes ++ rest).drop (decoder.length encoding) = rest := List.drop_left
  rw [Decoder.sweepFrom_of_ok some_bytes decoded, if_neg some_length, if_pos fits, left]
  rfl

theorem decode_cons (encoding : Encoding) (rest : List UInt8) :
    decoder.decode (encoding.bytes ++ rest) =
      ((decoder.decode rest).mapError (DecodeError.shift encoding.length)).map (encoding :: ·) := by
  rw [Decoder.decode, Decoder.sweep, sweepFrom_bytes_append, Decoder.result_prepend, Nat.add_comm,
    Decoder.result_sweepFrom_add offset_le_of_error]
  rfl

/-- Behind encodings the sweep goes on as it would on its own. -/
theorem decode_flatMap_append (encodings : List Encoding) (rest : List UInt8) :
    decoder.decode (encodings.flatMap bytes ++ rest) =
      ((decoder.decode rest).mapError
        (DecodeError.shift (encodings.flatMap bytes).length)).map (encodings ++ ·) := by
  induction encodings with
  | nil =>
    rw [List.flatMap_nil, List.nil_append]
    cases decoder.decode rest <;> simp [Except.map, Except.mapError]
  | cons encoding others ih =>
    rw [List.flatMap_cons, List.append_assoc, decode_cons, ih]
    cases decoder.decode rest with
    | ok found => rfl
    | error error =>
      simp only [Except.mapError, Except.map, DecodeError.shift_shift, List.length_append]
      rfl

/-- What an image can end with behind whole encodings. -/
inductive Remainder : List UInt8 → Prop where
  | finished : Remainder []
  | cut {rest more : List UInt8} {encoding : Encoding} (started : rest ≠ []) (proper : more ≠ [])
      (whole : encoding.bytes = rest ++ more) : Remainder rest
  | refused {rest : List UInt8} {offset : Nat} {byte : UInt8} (cause : Refused offset byte rest) :
      Remainder rest

theorem exists_remainder (image : List UInt8) :
    ∃ (encodings : List Encoding) (rest : List UInt8),
      encodings.flatMap bytes ++ rest = image ∧ Remainder rest := by
  -- An encoding at the front leaves fewer bytes behind it.
  induction size : image.length using Nat.strongRecOn generalizing image with
  | ind count ih =>
    by_cases nothing : image = []
    · exact ⟨[], [], nothing.symm, .finished⟩
    · cases readOutcome image with
      | taken encoding rest success =>
        have front := eq_of_read success
        have bounds := encoding.length_bounds
        have shorter : rest.length < count := by
          rw [← size, front, List.length_append]
          rw [length] at bounds
          omega
        obtain ⟨encodings, left, written, remainder⟩ := ih _ shorter rest rfl
        refine ⟨encoding :: encodings, left, ?_, remainder⟩
        rw [List.flatMap_cons, List.append_assoc, written, front]
      | ended truncated _ _ _ _ =>
        obtain ⟨more, proper, encoding, whole⟩ := read_truncated_iff.mp truncated
        exact ⟨[], image, rfl, .cut nothing proper whole⟩
      | refused offset byte cause => exact ⟨[], image, rfl, .refused cause⟩

section Remainders

variable (encodings : List Encoding) {rest : List UInt8}

theorem decode_of_finished :
    decoder.decode (encodings.flatMap bytes) = .ok encodings :=
  Decoder.decode_eq_ok_iff.mpr (cuts_iff.mpr rfl)

theorem decode_of_cut {more : List UInt8} {encoding : Encoding} (started : rest ≠ [])
    (proper : more ≠ []) (whole : encoding.bytes = rest ++ more) :
    decoder.decode (encodings.flatMap bytes ++ rest) =
      .error (.truncated (encodings.flatMap bytes).length (rest.length + 1) rest.length) := by
  have truncated := read_truncated_iff.mpr ⟨more, proper, encoding, whole⟩
  have failed : decodeOne rest = .error (.truncated 0 (rest.length + 1) rest.length) := by
    exact decodeOne_of_refusal truncated
  rw [decode_flatMap_append, decode_of_error started failed]
  rfl

theorem decode_of_refused {offset : Nat} {byte : UInt8} (cause : Refused offset byte rest) :
    decoder.decode (encodings.flatMap bytes ++ rest) =
      .error (.unsupported ((encodings.flatMap bytes).length + offset) byte) := by
  have started : rest ≠ [] := by
    intro nothing
    subst nothing
    cases cause
  have failed : decodeOne rest = .error (.unsupported offset byte) := by
    exact decodeOne_of_refusal (read_of_refused cause)
  rw [decode_flatMap_append, decode_of_error started failed]
  rfl

end Remainders

theorem Refused.getElem?_eq {offset : Nat} {byte : UInt8} {input : List UInt8}
    (cause : Refused offset byte input) : input[offset]? = some byte := by
  cases cause <;> rfl

end Encoding

namespace Program

/-! ## Images and their ends -/

section Decoding

variable {signExtend : Bool} {front behind : List UInt8}

theorem decode_append {program : Program} (decoded : decode signExtend front = .ok program) :
    decode signExtend (front ++ behind) =
      ((decode signExtend behind).mapError (DecodeError.shift front.length)).map
        (program ++ ·) := by
  obtain ⟨encodings, rfl, rfl⟩ := decode_eq_ok_iff.mp decoded
  rw [decode_eq_map, decode_eq_map, Encoding.decode_flatMap_append]
  cases Encoding.decoder.decode behind with
  | error error => rfl
  | ok others => simp [Except.map, Except.mapError]

inductive Failure (image : List UInt8) : DecodeError → Prop where
  | cut {encodings : List Encoding} {rest more : List UInt8} {encoding : Encoding}
      (written : encodings.flatMap Encoding.bytes ++ rest = image) (started : rest ≠ [])
      (proper : more ≠ []) (whole : encoding.bytes = rest ++ more) :
      Failure image
        (.truncated (encodings.flatMap Encoding.bytes).length (rest.length + 1) rest.length)
  | refused {encodings : List Encoding} {rest : List UInt8} {offset : Nat} {byte : UInt8}
      (written : encodings.flatMap Encoding.bytes ++ rest = image)
      (cause : Encoding.Refused offset byte rest) :
      Failure image (.unsupported ((encodings.flatMap Encoding.bytes).length + offset) byte)

theorem decode_fails_iff {image : List UInt8} {error : DecodeError} :
    decode signExtend image = .error error ↔ Failure image error := by
  rw [decode_eq_error_iff]
  constructor
  · intro failed
    obtain ⟨encodings, rest, rfl, remainder⟩ := Encoding.exists_remainder image
    cases remainder with
    | finished =>
      rw [List.append_nil, Encoding.decode_of_finished] at failed
      cases failed
    | cut started proper whole =>
      rw [Encoding.decode_of_cut encodings started proper whole] at failed
      cases failed
      exact .cut rfl started proper whole
    | refused cause =>
      rw [Encoding.decode_of_refused encodings cause] at failed
      cases failed
      exact .refused rfl cause
  · intro failure
    cases failure with
    | cut written started proper whole =>
      rw [← written]
      exact Encoding.decode_of_cut _ started proper whole
    | refused written cause =>
      rw [← written]
      exact Encoding.decode_of_refused _ cause

/-- Whatever is put behind it, a refused byte is refused. -/
theorem decode_append_of_unsupported {offset : Nat} {byte : UInt8}
    (failed : decode signExtend front = .error (.unsupported offset byte)) :
    decode signExtend (front ++ behind) = .error (.unsupported offset byte) := by
  rw [decode_fails_iff] at failed ⊢
  cases failed with
  | refused written cause =>
    refine .refused ?_ (cause.append behind)
    rw [← List.append_assoc, written]

theorem decode_truncated_iff {image : List UInt8} :
    (∃ offset needed available,
        decode signExtend image = .error (.truncated offset needed available)) ↔
      (∀ program, decode signExtend image ≠ .ok program) ∧
        ∃ more program, decode signExtend (image ++ more) = .ok program := by
  constructor
  · intro truncated
    obtain ⟨offset, needed, available, failed⟩ := truncated
    refine ⟨by simp [failed], ?_⟩
    cases decode_fails_iff.mp failed with
    | @cut encodings rest more encoding written started proper whole =>
      have completed : (encodings ++ [encoding]).flatMap Encoding.bytes = image ++ more := by
        rw [← written, List.flatMap_append, List.append_assoc, ← whole]
        simp
      exact ⟨more, _, decode_eq_ok_iff.mpr ⟨_, completed, rfl⟩⟩
  · intro extended
    obtain ⟨undecoded, more, program, success⟩ := extended
    cases decoded : decode signExtend image with
    | ok program => exact absurd decoded (undecoded program)
    | error error =>
      cases decode_fails_iff.mp decoded with
      | cut written started proper whole => exact ⟨_, _, _, rfl⟩
      | refused written cause =>
        rw [decode_append_of_unsupported decoded] at success
        cases success

end Decoding

/-! ## Two images in a row -/

/-- What decoding makes of two byte strings in a row, in terms of what it makes of each. -/
structure Compositional (signExtend : Bool) (front behind : List UInt8) : Prop where
  joins : ∀ first second : Program, decode signExtend front = .ok first →
    decode signExtend behind = .ok second →
      decode signExtend (front ++ behind) = .ok (first ++ second)
  fails_behind : ∀ (first : Program) (error : DecodeError), decode signExtend front = .ok first →
    decode signExtend behind = .error error →
      decode signExtend (front ++ behind) = .error (error.shift front.length)
  refuses_still : ∀ (offset : Nat) (byte : UInt8),
    decode signExtend front = .error (.unsupported offset byte) →
      decode signExtend (front ++ behind) = .error (.unsupported offset byte)
  truncated_iff : (∃ offset needed available,
      decode signExtend front = .error (.truncated offset needed available)) ↔
    (∀ program, decode signExtend front ≠ .ok program) ∧
      ∃ more program, decode signExtend (front ++ more) = .ok program
  never_zeroLength : ∀ offset : Nat, decode signExtend front ≠ .error (.zeroLength offset)
  offset_inside : ∀ error : DecodeError, decode signExtend front = .error error →
    error.offset < front.length
  reports_byte : ∀ (offset : Nat) (byte : UInt8),
    decode signExtend front = .error (.unsupported offset byte) → front[offset]? = some byte

theorem decode_compositional (signExtend : Bool) (front behind : List UInt8) :
    Compositional signExtend front behind where
  joins := by
    intro first second decoded decodedBehind
    rw [decode_append decoded, decodedBehind]
    rfl
  fails_behind := by
    intro first error decoded failed
    rw [decode_append decoded, failed]
    rfl
  refuses_still := by
    intro offset byte failed
    exact decode_append_of_unsupported failed
  truncated_iff := decode_truncated_iff
  never_zeroLength := by
    intro offset failed
    cases decode_fails_iff.mp failed
  offset_inside := by
    intro error failed
    cases decode_fails_iff.mp failed with
    | cut written started proper whole =>
      have some_left := List.length_pos_iff.mpr started
      rw [← written, List.length_append, DecodeError.offset]
      omega
    | refused written cause =>
      obtain ⟨inside, _⟩ := List.getElem?_eq_some_iff.mp cause.getElem?_eq
      rw [← written, List.length_append, DecodeError.offset]
      omega
  reports_byte := by
    intro offset byte failed
    cases decode_fails_iff.mp failed with
    | refused written cause =>
      rw [← written, List.getElem?_append_right (Nat.le_add_right _ _), Nat.add_sub_cancel_left]
      exact cause.getElem?_eq

end Program
end Mini8086
