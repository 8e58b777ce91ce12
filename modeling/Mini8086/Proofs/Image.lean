import Mini8086.Proofs.Address
import Mini8086.Proofs.DecodeOne
import Mini8086.Proofs.Partition

/-!
# Images and their programs

A sweep succeeds exactly when it cuts the image into items without a gap.  For encodings this means
that the image is the encodings written one after the other, so every instruction of a decoded
program stands at its address, and the addresses end with the size of the image.
-/

set_option autoImplicit false

namespace Mini8086

/-! ## Cutting an image -/

namespace Decoder

variable {ι : Type}

/-- `Cuts image items`: each item is what the decoder finds behind the one before, and the last one
ends with the image. -/
inductive Cuts (decoder : Decoder ι) : List UInt8 → List ι → Prop where
  | finished : Cuts decoder [] []
  | item {bytes : List UInt8} {item : ι} {items : List ι}
      (decoded : decoder.decodeOne bytes = .ok item) (advances : 0 < decoder.length item)
      (fits : decoder.length item ≤ bytes.length)
      (others : Cuts decoder (bytes.drop (decoder.length item)) items) :
      Cuts decoder bytes (item :: items)

theorem Trail.cuts {decoder : Decoder ι} {image : List UInt8} {offset last : Nat} {items : List ι}
    (trail : decoder.Trail image offset items last) (finished : last = image.length) :
    decoder.Cuts (image.drop offset) items := by
  induction trail with
  | here offset =>
    subst finished
    rw [List.drop_length]
    exact .finished
  | next takes others ih =>
    have advances := takes.advances
    have within := takes.within
    have measured := takes.measured
    refine .item takes.decoded (by omega) (by rw [List.length_drop]; omega) ?_
    rw [List.drop_drop, measured, Nat.add_sub_of_le (Nat.le_of_lt advances)]
    exact ih finished

theorem Cuts.trail {decoder : Decoder ι} {image bytes : List UInt8} {offset : Nat}
    {items : List ι} (cuts : decoder.Cuts bytes items) (within : offset ≤ image.length)
    (left : image.drop offset = bytes) : decoder.Trail image offset items image.length := by
  induction cuts generalizing offset with
  | finished =>
    rw [List.drop_eq_nil_iff] at left
    rw [Nat.le_antisymm within left]
    exact .here image.length
  | @item bytes item items decoded advances fits others ih =>
    subst left
    rw [List.length_drop] at fits
    have reached : offset + decoder.length item ≤ image.length := by omega
    have takes : decoder.Takes image offset item (offset + decoder.length item) :=
      ⟨decoded, by omega, reached, by omega⟩
    exact .next takes (ih reached List.drop_drop.symm)

theorem decode_eq_ok_iff {decoder : Decoder ι} {image : List UInt8} {items : List ι} :
    decoder.decode image = .ok items ↔ decoder.Cuts image items := by
  rw [decode_eq_ok_iff_trail]
  constructor
  · intro trail
    exact trail.cuts rfl
  · intro cuts
    exact cuts.trail (Nat.zero_le image.length) List.drop_zero

end Decoder

/-! ## Images of encodings -/

theorem Encoding.cuts_iff {image : List UInt8} {encodings : List Encoding} :
    Encoding.decoder.Cuts image encodings ↔ encodings.flatMap Encoding.bytes = image := by
  induction encodings generalizing image with
  | nil =>
    constructor
    · intro cuts
      cases cuts
      rfl
    · intro nothing
      subst nothing
      exact .finished
  | cons encoding others ih =>
    rw [List.flatMap_cons]
    constructor
    · intro cuts
      cases cuts with
      | item decoded advances fits rest =>
        obtain ⟨behind, rfl⟩ := Encoding.decodeOne_eq_ok_iff.mp decoded
        have dropped :
            (encoding.bytes ++ behind).drop (Encoding.decoder.length encoding) = behind :=
          List.drop_left
        rw [dropped] at rest
        rw [ih.mp rest]
    · intro written
      subst written
      have bounds := encoding.length_bounds
      have decoded := Encoding.decodeOne_eq_ok_iff.mpr
        (List.prefix_append encoding.bytes (others.flatMap Encoding.bytes))
      refine .item decoded ?_ ?_ ?_
      · exact Nat.lt_of_lt_of_le Nat.zero_lt_two bounds.1
      · rw [List.length_append]
        exact Nat.le_add_right _ _
      · have dropped : (encoding.bytes ++ others.flatMap Encoding.bytes).drop
            (Encoding.decoder.length encoding) = others.flatMap Encoding.bytes := List.drop_left
        rw [dropped]
        exact ih.mpr rfl

theorem Encoding.drop_image (encodings : List Encoding) (index : Nat) :
    (encodings.flatMap Encoding.bytes).drop (addressIn (encodings.map Encoding.length) index) =
      (encodings.drop index).flatMap Encoding.bytes := by
  induction encodings generalizing index with
  | nil => simp
  | cons encoding others ih =>
    cases index with
    | zero => simp
    | succ index =>
      have address : addressIn ((encoding :: others).map Encoding.length) (index + 1) =
          encoding.bytes.length + addressIn (others.map Encoding.length) index := by
        simp [addressIn, Encoding.length]
      rw [List.flatMap_cons, address, ← List.drop_drop, List.drop_left, ih, List.drop_succ_cons]

theorem Encoding.length_image (encodings : List Encoding) :
    (encodings.flatMap Encoding.bytes).length = (encodings.map Encoding.length).sum := by
  rw [List.length_flatMap]
  rfl

/-! ## Decoded programs -/

namespace Program

/-- The address of the instruction at `index`, in bytes from the start of the image. -/
def address (program : Program) (index : Nat) : Nat :=
  addressIn program.lengths index

/-- What the sweep over instructions finds are the meanings of encodings, whatever the setting. -/
theorem renames_decoder (signExtend : Bool) :
    Encoding.decoder.Renames (Instruction.decoder signExtend)
      (Encoding.instruction signExtend) where
  decodeOne := Instruction.decodeOne_eq_map signExtend
  length := fun _ => rfl

theorem renames_decoderWithNotes (signExtend : Bool) :
    Encoding.decoder.Renames (Instruction.decoderWithNotes signExtend)
      (fun encoding => (encoding.instruction signExtend, encoding.notes signExtend)) where
  decodeOne := Instruction.decodeOne_decoderWithNotes signExtend
  length := fun _ => rfl

theorem decode_eq_map (signExtend : Bool) (image : List UInt8) :
    decode signExtend image = (Encoding.decoder.decode image).map fun encodings =>
      (encodings.map (Encoding.instruction signExtend)).toArray := by
  rw [decode, (renames_decoder signExtend).decode]
  cases Encoding.decoder.decode image <;> rfl

theorem decodeEvents_eq (signExtend : Bool) (image : List UInt8) :
    decodeEvents signExtend image =
      (Encoding.decoder.sweep image).events (Encoding.notes signExtend) image.length := by
  rw [decodeEvents, Decoder.sweep, (renames_decoderWithNotes signExtend).sweepFrom,
    Decoder.events_map]
  rfl

theorem decode_eq_ok_iff {signExtend : Bool} {image : List UInt8} {program : Program} :
    decode signExtend image = .ok program ↔
      ∃ encodings : List Encoding, encodings.flatMap Encoding.bytes = image ∧
        (encodings.map (Encoding.instruction signExtend)).toArray = program := by
  rw [decode_eq_map]
  constructor
  · intro success
    cases found : Encoding.decoder.decode image with
    | error error =>
      rw [found] at success
      cases success
    | ok encodings =>
      rw [found] at success
      cases success
      exact ⟨encodings, Encoding.cuts_iff.mp (Decoder.decode_eq_ok_iff.mp found), rfl⟩
  · intro written
    obtain ⟨encodings, cuts, rfl⟩ := written
    rw [Decoder.decode_eq_ok_iff.mpr (Encoding.cuts_iff.mpr cuts)]
    rfl

theorem decode_eq_error_iff {signExtend : Bool} {image : List UInt8} {error : DecodeError} :
    decode signExtend image = .error error ↔ Encoding.decoder.decode image = .error error := by
  rw [decode_eq_map]
  cases Encoding.decoder.decode image <;> simp [Except.map]

theorem lengths_of_encodings (signExtend : Bool) (encodings : List Encoding) :
    lengths (encodings.map (Encoding.instruction signExtend)).toArray =
      encodings.map Encoding.length := by
  rw [lengths, List.map_map]
  rfl

theorem length_lengths (program : Program) : program.lengths.length = program.size := by
  simp [lengths]

theorem address_succ {program : Program} {index : Nat} {instruction : Instruction}
    (found : program[index]? = some instruction) :
    program.address (index + 1) = program.address index + instruction.length := by
  apply addressIn_succ
  rw [lengths, List.getElem?_map, Array.getElem?_toList, found]
  rfl

def OnBoundary (program : Program) (address : Int) : Prop :=
  ∃ index ≤ program.size, address = program.address index

def InsideInstruction (program : Program) (address : Int) : Prop :=
  ∃ index < program.size,
    program.address index < address ∧ address < program.address (index + 1)

section Decoded

variable {signExtend : Bool} {image : List UInt8} {program : Program}

theorem exists_encoding_of_decoded (decoded : decode signExtend image = .ok program) {index : Nat}
    {instruction : Instruction} (found : program[index]? = some instruction) :
    ∃ encoding : Encoding, encoding.instruction signExtend = instruction := by
  obtain ⟨encodings, _, rfl⟩ := decode_eq_ok_iff.mp decoded
  rw [List.getElem?_toArray, List.getElem?_map] at found
  obtain ⟨encoding, _, means⟩ := Option.map_eq_some_iff.mp found
  exact ⟨encoding, means⟩

theorem length_pos_of_decoded (decoded : decode signExtend image = .ok program) :
    ∀ instruction ∈ program, 0 < instruction.length := by
  intro instruction member
  obtain ⟨index, inside, rfl⟩ := Array.mem_iff_getElem.mp member
  obtain ⟨encoding, means⟩ := exists_encoding_of_decoded decoded (Array.getElem?_eq_getElem inside)
  have bounds := encoding.length_bounds
  rw [← means]
  exact Nat.lt_of_lt_of_le Nat.zero_lt_two bounds.1

/-- An instruction is what the decoder finds at its address. -/
theorem decodeOne_at_address (decoded : decode signExtend image = .ok program) {index : Nat}
    {instruction : Instruction} (found : program[index]? = some instruction) :
    Instruction.decodeOne signExtend (image.drop (program.address index)) = .ok instruction := by
  obtain ⟨encodings, rfl, rfl⟩ := decode_eq_ok_iff.mp decoded
  rw [List.getElem?_toArray, List.getElem?_map] at found
  obtain ⟨encoding, listed, rfl⟩ := Option.map_eq_some_iff.mp found
  rw [address, lengths_of_encodings, Encoding.drop_image]
  obtain ⟨inside, placed⟩ := List.getElem?_eq_some_iff.mp listed
  rw [List.drop_eq_getElem_cons inside, placed, List.flatMap_cons]
  exact Instruction.decodeOne_eq_ok_iff.mpr ⟨encoding, List.prefix_append _ _, rfl⟩

theorem sum_lengths_of_decoded (decoded : decode signExtend image = .ok program) :
    program.lengths.sum = image.length := by
  obtain ⟨encodings, rfl, rfl⟩ := decode_eq_ok_iff.mp decoded
  rw [lengths_of_encodings, Encoding.length_image]

theorem address_size (decoded : decode signExtend image = .ok program) :
    program.address program.size = image.length := by
  rw [address, addressIn_all (Nat.le_of_eq program.length_lengths), sum_lengths_of_decoded decoded]

theorem address_inj (decoded : decode signExtend image = .ok program) {left right : Nat}
    (leftInside : left ≤ program.size) (rightInside : right ≤ program.size)
    (same : program.address left = program.address right) : left = right := by
  have advances : ∀ length ∈ program.lengths, 0 < length := by
    intro length member
    obtain ⟨instruction, listed, rfl⟩ := List.mem_map.mp member
    exact length_pos_of_decoded decoded instruction (Array.mem_def.mpr listed)
  rw [← program.length_lengths] at leftInside rightInside
  exact addressIn_inj advances leftInside rightInside same

/-! ## Jumps in a decoded program -/

theorem resolveJump_eq_misaligned_iff {index : Nat} {offset : Int}
    (inside : index < program.size) :
    resolveJump Instruction.length program index offset = .error (.misaligned index offset) ↔
      program.InsideInstruction (program.address (index + 1) + offset) :=
  Mini8086.resolveJump_eq_misaligned_iff inside

section Jump

variable (decoded : decode signExtend image = .ok program) {index : Nat} {offset : Int}
  (inside : index < program.size)

include decoded inside

theorem resolveJump_eq_ok_iff {target : Nat} :
    resolveJump Instruction.length program index offset = .ok target ↔
      target ≤ program.size ∧
        (program.address target : Int) = program.address (index + 1) + offset :=
  Mini8086.resolveJump_eq_ok_iff (length_pos_of_decoded decoded) inside

theorem resolveJump_eq_outOfRange_iff :
    resolveJump Instruction.length program index offset = .error (.outOfRange index offset) ↔
      (program.address (index + 1) : Int) + offset < 0 ∨
        (image.length : Int) < program.address (index + 1) + offset := by
  rw [← sum_lengths_of_decoded decoded]
  exact Mini8086.resolveJump_eq_outOfRange_iff inside

end Jump

end Decoded

end Program
end Mini8086
