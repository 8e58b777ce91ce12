import Mini8086.Proofs.Concatenation

/-!
# The journal of decoding

Decoding keeps its journal while it sweeps over an image: the decoder's remarks on an instruction,
then how many bytes it took, and at the end of the image how many instructions there were.  Main
statement, `Program.decode_journaled`: a journal shows an entry for every instruction at its offset
and nothing of an instruction that could not be decoded, so a sweep that fails leaves the journal of
the bytes in front of the failure, without its end.
-/

set_option autoImplicit false

namespace Mini8086

/-! ## Sweeping with a journal -/

/-- A decoder that makes remarks while it reads, whether it succeeds or not. -/
structure NotingDecoder (ι ν : Type) where
  decodeOne : List UInt8 → Except DecodeError ι × List ν
  length : ι → Nat

namespace NotingDecoder

variable {ι ν : Type}

def item (noting : NotingDecoder ι ν) (bytes : List UInt8) :
    Transition Nat DecodeError (SweepEvent ν) ι := fun offset =>
  ⟨(noting.decodeOne bytes).1.mapError (DecodeError.rebase offset), offset,
    (noting.decodeOne bytes).2.map .note⟩

def items (noting : NotingDecoder ι ν) (bytes : List UInt8) :
    Transition Nat DecodeError (SweepEvent ν) (List ι) :=
  match bytes with
  | [] => return []
  | first :: others => do
    let item ← noting.item (first :: others)
    let length := noting.length item
    let offset ← Transition.inspect id
    if length = 0 then
      Transition.fail (.zeroLength offset)
    else
      match _skipped : skip? length (first :: others) with
      | none => Transition.fail (.truncated offset length (first :: others).length)
      | some rest => do
        Transition.report (.consumed offset length)
        Transition.update (· + length)
        let items ← noting.items rest
        return item :: items
termination_by bytes.length
decreasing_by
  have shorter := length_of_skip? ‹skip? _ _ = some rest›
  omega

def sweep (noting : NotingDecoder ι ν) (image : List UInt8) :
    Transition Nat DecodeError (SweepEvent ν) (List ι) := do
  let items ← noting.items image
  Transition.report (.finished items.length image.length)
  return items

section Items

variable {noting : NotingDecoder ι ν} {bytes : List UInt8} {remarks : List ν} (offset : Nat)

theorem items_of_error {error : DecodeError} (some_bytes : bytes ≠ [])
    (failed : noting.decodeOne bytes = (.error error, remarks)) :
    noting.items bytes offset =
      ⟨.error (error.rebase offset), offset, remarks.map .note⟩ := by
  cases bytes with
  | nil => exact absurd rfl some_bytes
  | cons first others =>
    have stopped : noting.item (first :: others) offset =
        ⟨.error (error.rebase offset), offset, remarks.map .note⟩ := by
      rw [item, failed]
      rfl
    rw [items, Transition.bind_of_error _ stopped]

theorem items_of_ok {item : ι} (some_bytes : bytes ≠ [])
    (decoded : noting.decodeOne bytes = (.ok item, remarks)) :
    noting.items bytes offset =
      if noting.length item = 0 then
        ⟨.error (.zeroLength offset), offset, remarks.map .note⟩
      else if noting.length item ≤ bytes.length then
        let later := noting.items (bytes.drop (noting.length item)) (offset + noting.length item)
        ⟨later.result.map (item :: ·), later.state,
          remarks.map .note ++ .consumed offset (noting.length item) :: later.events⟩
      else
        ⟨.error (.truncated offset (noting.length item) bytes.length), offset,
          remarks.map .note⟩ := by
  cases bytes with
  | nil => exact absurd rfl some_bytes
  | cons first others =>
    have found : noting.item (first :: others) offset =
        ⟨.ok item, offset, remarks.map .note⟩ := by
      rw [NotingDecoder.item, decoded]
      rfl
    have skipped := skip?_eq (noting.length item) (first :: others)
    rw [items, Transition.bind_of_ok _ found]
    simp only [Transition.bind_apply, Transition.inspect_apply, id]
    by_cases empty : noting.length item = 0
    · simp [empty]
    · by_cases fits : noting.length item ≤ (first :: others).length
      · rw [if_pos fits] at skipped
        rw [if_neg empty, if_neg empty, if_pos fits]
        generalize skip? (noting.length item) (first :: others) = left at skipped
        subst skipped
        simp only [Transition.bind_apply, Transition.report_apply, Transition.update_apply]
        cases noting.items ((first :: others).drop (noting.length item))
            (offset + noting.length item) with
        | mk result state events => cases result <;> simp [Transition.pure_apply, Except.map]
      · rw [if_neg fits] at skipped
        rw [if_neg empty, if_neg empty, if_neg fits]
        generalize skip? (noting.length item) (first :: others) = left at skipped
        subst skipped
        simp

end Items

/-- The decoder finds what the items of the other one mean. It has made the remarks that `notes`
says where it succeeds, and none where it fails. The items have a length and do not reach past the
input, so a remark is never made on an item that the sweep turns down. -/
structure Follows {κ : Type} (noting : NotingDecoder κ ν) (decoder : Decoder ι) (means : ι → κ)
    (notes : ι → List ν) : Prop where
  length : ∀ item, noting.length (means item) = decoder.length item
  decoded : ∀ {bytes : List UInt8} {item : ι}, decoder.decodeOne bytes = .ok item →
    noting.decodeOne bytes = (.ok (means item), notes item)
  failed : ∀ {bytes : List UInt8} {error : DecodeError}, decoder.decodeOne bytes = .error error →
    noting.decodeOne bytes = (.error error, [])
  fits : ∀ {bytes : List UInt8} {item : ι}, decoder.decodeOne bytes = .ok item →
    0 < decoder.length item ∧ decoder.length item ≤ bytes.length

end NotingDecoder

namespace Sweep

variable {ι ν : Type}

def entries (notes : ι → List ν) (sweep : Sweep ι) : List (SweepEvent ν) :=
  sweep.parts.flatMap fun part =>
    (notes part.item).map .note ++ [.consumed part.offset part.length]

def size (sweep : Sweep ι) : Nat :=
  (sweep.parts.map Part.length).sum

theorem entries_prepend (notes : ι → List ν) (part : Part ι) (sweep : Sweep ι) :
    (sweep.prepend part).entries notes =
      (notes part.item).map .note ++ .consumed part.offset part.length :: sweep.entries notes := by
  simp [entries, prepend]

theorem size_prepend (part : Part ι) (sweep : Sweep ι) :
    (sweep.prepend part).size = part.length + sweep.size := by
  simp [size, prepend]

end Sweep

namespace NotingDecoder.Follows

variable {ι κ ν : Type} {noting : NotingDecoder κ ν} {decoder : Decoder ι} {means : ι → κ}
  {notes : ι → List ν}

/-- A journal that is kept on the way is what can be told from the items afterwards. -/
theorem items_apply (follows : noting.Follows decoder means notes) (offset : Nat)
    (bytes : List UInt8) :
    noting.items bytes offset =
      ⟨(decoder.sweepFrom offset bytes).result.map (List.map means),
        offset + (decoder.sweepFrom offset bytes).size,
        (decoder.sweepFrom offset bytes).entries notes⟩ := by
  -- An item that is taken leaves fewer bytes to the rest of the sweep.
  induction size : bytes.length using Nat.strongRecOn generalizing offset bytes with
  | ind count ih =>
    cases bytes with
    | nil =>
      rw [items, Decoder.sweepFrom]
      rfl
    | cons first others =>
      have some_bytes : first :: others ≠ [] := List.cons_ne_nil first others
      cases found : decoder.decodeOne (first :: others) with
      | error error =>
        rw [items_of_error offset some_bytes (follows.failed found),
          Decoder.sweepFrom_of_error some_bytes found]
        rfl
      | ok item =>
        rw [items_of_ok offset some_bytes (follows.decoded found),
          Decoder.sweepFrom_of_ok some_bytes found, follows.length]
        obtain ⟨advances, within⟩ := follows.fits found
        have some_length : decoder.length item ≠ 0 := Nat.ne_of_gt advances
        have shorter : ((first :: others).drop (decoder.length item)).length < count := by
          rw [List.length_drop]
          omega
        rw [if_neg some_length, if_neg some_length, if_pos within, if_pos within,
          ih _ shorter _ _ rfl, Decoder.result_prepend, Sweep.size_prepend, Sweep.entries_prepend,
          Nat.add_assoc]
        cases (decoder.sweepFrom (offset + decoder.length item)
          ((first :: others).drop (decoder.length item))).result <;> rfl

theorem sweep_apply (follows : noting.Follows decoder means notes) (image : List UInt8) :
    noting.sweep image 0 =
      ⟨(decoder.decode image).map (List.map means), (decoder.sweep image).size,
        (decoder.sweep image).events notes image.length⟩ := by
  have swept := follows.items_apply 0 image
  rw [Nat.zero_add] at swept
  rw [Decoder.decode, Decoder.sweep] at *
  unfold NotingDecoder.sweep Sweep.events
  cases failure : (decoder.sweepFrom 0 image).failure? with
  | none =>
    have succeeds : (decoder.sweepFrom 0 image).result = .ok (decoder.sweepFrom 0 image).items := by
      rw [Sweep.result, failure]
    rw [succeeds] at swept ⊢
    rw [Transition.bind_of_ok _ swept]
    simp [Transition.bind_apply, Transition.pure_apply, Sweep.entries, Sweep.items, Except.map]
  | some error =>
    have fails : (decoder.sweepFrom 0 image).result = .error error := by
      rw [Sweep.result, failure]
    rw [fails] at swept ⊢
    rw [Transition.bind_of_error _ swept]
    simp [Sweep.entries, Except.map]

end NotingDecoder.Follows

namespace Instruction

def notingDecoder (signExtend : Bool) : NotingDecoder Instruction DecodeNote where
  decodeOne := fun bytes => (decodeOne signExtend bytes, decodeOneNotes signExtend bytes)
  length := length

theorem notingDecoder_follows (signExtend : Bool) :
    (notingDecoder signExtend).Follows Encoding.decoder (Encoding.instruction signExtend)
      (Encoding.notes signExtend) where
  length := fun _ => rfl
  decoded := by
    intro bytes encoding found
    have known : Encoding.decodeOne bytes = .ok encoding := found
    simp only [notingDecoder, decodeOne_eq_map, decodeOneNotes_eq, known]
    rfl
  failed := by
    intro bytes error found
    have known : Encoding.decodeOne bytes = .error error := found
    simp only [notingDecoder, decodeOne_eq_map, decodeOneNotes_eq, known]
    rfl
  fits := by
    intro bytes encoding found
    have bounds := encoding.length_bounds
    have front := (Encoding.decodeOne_eq_ok_iff.mp found).length_le
    exact ⟨Nat.lt_of_lt_of_le Nat.zero_lt_two bounds.1, front⟩

end Instruction

namespace Encoding

/-! ## Sweeps over encodings -/

def partsFrom (offset : Nat) : List Encoding → List (Part Encoding)
  | [] => []
  | encoding :: others =>
    ⟨offset, encoding.length, encoding⟩ :: partsFrom (offset + encoding.length) others

theorem length_partsFrom (offset : Nat) (encodings : List Encoding) :
    (partsFrom offset encodings).length = encodings.length := by
  induction encodings generalizing offset with
  | nil => rfl
  | cons encoding others ih => rw [partsFrom, List.length_cons, ih, List.length_cons]

theorem sum_partsFrom (offset : Nat) (encodings : List Encoding) :
    ((partsFrom offset encodings).map Part.length).sum = (encodings.flatMap bytes).length := by
  induction encodings generalizing offset with
  | nil => rfl
  | cons encoding others ih =>
    rw [partsFrom, List.map_cons, List.sum_cons, ih, List.flatMap_cons, List.length_append]
    rfl

theorem sweepFrom_flatMap_append (offset : Nat) (encodings : List Encoding) (rest : List UInt8) :
    decoder.sweepFrom offset (encodings.flatMap bytes ++ rest) =
      ⟨partsFrom offset encodings ++
          (decoder.sweepFrom (offset + (encodings.flatMap bytes).length) rest).parts,
        (decoder.sweepFrom (offset + (encodings.flatMap bytes).length) rest).failure?⟩ := by
  induction encodings generalizing offset with
  | nil => rfl
  | cons encoding others ih =>
    rw [List.flatMap_cons, List.append_assoc, sweepFrom_bytes_append, ih, List.length_append,
      ← Nat.add_assoc]
    rfl

theorem sweep_of_finished (encodings : List Encoding) :
    decoder.sweep (encodings.flatMap bytes) = ⟨partsFrom 0 encodings, none⟩ := by
  have swept := sweepFrom_flatMap_append 0 encodings []
  rw [List.append_nil, Decoder.sweepFrom, List.append_nil] at swept
  exact swept

theorem sweep_of_error (encodings : List Encoding) {rest : List UInt8} {cause : DecodeError}
    (started : rest ≠ []) (failed : decodeOne rest = .error cause) :
    decoder.sweep (encodings.flatMap bytes ++ rest) =
      ⟨partsFrom 0 encodings, some (cause.shift (encodings.flatMap bytes).length)⟩ := by
  rw [Decoder.sweep, sweepFrom_flatMap_append, sweepFrom_of_error _ started failed, Nat.zero_add]
  simp [Sweep.failed]

theorem Remainder.finished_or_fails {rest : List UInt8} (remainder : Remainder rest) :
    rest = [] ∨ rest ≠ [] ∧ ∃ cause, decodeOne rest = .error cause := by
  cases remainder with
  | finished => exact .inl rfl
  | cut started proper whole =>
    have truncated := read_truncated_iff.mpr ⟨_, proper, _, whole⟩
    exact .inr ⟨started, _, decodeOne_of_refusal truncated⟩
  | refused cause =>
    have started : rest ≠ [] := by
      intro nothing
      subst nothing
      cases cause
    exact .inr ⟨started, _, decodeOne_of_refusal (read_of_refused cause)⟩

end Encoding

/-! ## Entries -/

def DecodeEvent.line (event : DecodeEvent) : Level × String :=
  (event.level, event.message)

/-- The bit fields that the first two bytes of an encoding show, as they are reported: those of an
accumulator or branch encoding are not. -/
def Family.fieldText? (first second : UInt8) : Family → Option String
  | .immediateToRegister =>
    some ("immediate to register | w=" ++ Numeral.bit (Byte.bit first 3) ++
      " reg=" ++ Numeral.binary 3 (Byte.bits first 0 3).toNat)
  | .immediateToRegisterMemory =>
    some ("immediate to register/memory | s=" ++ Numeral.bit (Byte.bit first 1) ++
      " w=" ++ Numeral.bit (Byte.bit first 0) ++
      " mod=" ++ Numeral.binary 2 (Byte.bits second 6 2).toNat ++
      " rm=" ++ Numeral.binary 3 (Byte.bits second 0 3).toNat)
  | .immediateToAccumulator _ | .branch => none
  | .registerMemory =>
    some ("register/memory | d=" ++ Numeral.bit (Byte.bit first 1) ++
      " w=" ++ Numeral.bit (Byte.bit first 0) ++
      " mod=" ++ Numeral.binary 2 (Byte.bits second 6 2).toNat ++
      " reg=" ++ Numeral.binary 3 (Byte.bits second 3 3).toNat ++
      " rm=" ++ Numeral.binary 3 (Byte.bits second 0 3).toNat)

/-- The lines about the instruction whose bytes start at `offset`: its fields if its family reports
them, its meaning, and the bytes that it took. -/
inductive Entry (image : List UInt8) (offset : Nat) (instruction : Instruction) :
    List (Level × String) → Prop where
  | of {first second : UInt8} {family : Family} (front : image[offset]? = some first)
      (behind : image[offset + 1]? = some second) (opens : Family.ofByte? first = some family) :
      Entry image offset instruction
        ((family.fieldText? first second).toList.map (Level.trace, ·) ++
          [(.trace, family.name ++ " | " ++ instruction.text ++
              " (len " ++ instruction.length.repr ++ ")"),
            (.trace, "offset " ++ offset.repr ++ " | " ++ instruction.length.repr ++
              " bytes consumed")])

/-- One entry behind the other, each at the offset where the instruction before it ends. -/
inductive Entries (image : List UInt8) : Nat → List Instruction → List (Level × String) → Prop where
  | none (offset : Nat) : Entries image offset [] []
  | next {offset : Nat} {instruction : Instruction} {others : List Instruction}
      {lines rest : List (Level × String)} (entry : Entry image offset instruction lines)
      (entries : Entries image (offset + instruction.length) others rest) :
      Entries image offset (instruction :: others) (lines ++ rest)

def endLine (instructions bytes : Nat) : Level × String :=
  (.info, "decoded " ++ instructions.repr ++ " instructions from " ++ bytes.repr ++ " bytes")

/-! ## Fields in the bytes -/

theorem Opcode.bits_immediateToRegister (width : Width) (register : Octal) :
    Byte.bit (Opcode.immediateToRegister width register).byte 3 = width.isWord ∧
      (Byte.bits (Opcode.immediateToRegister width register).byte 0 3).toNat = register.val := by
  cases width <;> revert register <;> decide

theorem Opcode.bits_arithmeticImmediate (short : Bool) (width : Width) :
    Byte.bit (Opcode.arithmeticImmediate short width).byte 1 = short ∧
      Byte.bit (Opcode.arithmeticImmediate short width).byte 0 = width.isWord := by
  cases short <;> cases width <;> decide

theorem Opcode.bits_movImmediate (spare : Bool) (width : Width) :
    Byte.bit (Opcode.movImmediate spare width).byte 1 = spare ∧
      Byte.bit (Opcode.movImmediate spare width).byte 0 = width.isWord := by
  cases spare <;> cases width <;> decide

theorem Opcode.bits_registerMemory (operation : DataOperation) (toRegister : Bool)
    (width : Width) :
    Byte.bit (Opcode.registerMemory operation toRegister width).byte 1 = toRegister ∧
      Byte.bit (Opcode.registerMemory operation toRegister width).byte 0 = width.isWord := by
  cases toRegister <;> cases width <;> rcases operation with _ | (_ | _ | _) <;> decide

theorem Fields.bits_byte (mode : Fin 4) (register rm : Octal) :
    (Byte.bits (Fields.byte ⟨mode, register, rm⟩) 6 2).toNat = mode.val ∧
      (Byte.bits (Fields.byte ⟨mode, register, rm⟩) 3 3).toNat = register.val ∧
      (Byte.bits (Fields.byte ⟨mode, register, rm⟩) 0 3).toNat = rm.val := by
  revert mode register rm
  decide +kernel

namespace Encoding

theorem fieldText?_family (encoding : Encoding) {second : UInt8} {more : List UInt8}
    (behind : encoding.operandBytes = second :: more) :
    encoding.family.fieldText? encoding.opcode.byte second =
      encoding.fieldNote?.map FieldNote.message := by
  cases encoding with
  | immediateToRegister register data =>
    obtain ⟨wide, code⟩ := Opcode.bits_immediateToRegister data.width register
    simp only [family, opcode, Opcode.family, Family.fieldText?, wide, code]
    rfl
  | arithmeticImmediate operation place data =>
    cases behind
    obtain ⟨short, wide⟩ := Opcode.bits_arithmeticImmediate data.sign data.width
    obtain ⟨mode, _, rm⟩ := Fields.bits_byte place.mode operation.code place.rm
    simp only [family, opcode, Opcode.family, Family.fieldText?, short, wide, mode, rm]
    rfl
  | movImmediate spare unused place data =>
    cases behind
    obtain ⟨extra, wide⟩ := Opcode.bits_movImmediate spare data.width
    obtain ⟨mode, _, rm⟩ := Fields.bits_byte place.mode unused place.rm
    simp only [family, opcode, Opcode.family, Family.fieldText?, extra, wide, mode, rm]
    rfl
  | immediateToAccumulator operation data => rfl
  | branch jump displacement => rfl
  | registerMemory operation toRegister width register place =>
    cases behind
    obtain ⟨direction, wide⟩ := Opcode.bits_registerMemory operation toRegister width
    obtain ⟨mode, code, rm⟩ := Fields.bits_byte place.mode register place.rm
    simp only [family, opcode, Opcode.family, Family.fieldText?, direction, wide, mode, code, rm]
    rfl

theorem entry_of_encoding (signExtend : Bool) (encoding : Encoding) (front behind : List UInt8) :
    Entry (front ++ (encoding.bytes ++ behind)) front.length (encoding.instruction signExtend)
      (((encoding.notes signExtend).map SweepEvent.note ++
        [SweepEvent.consumed front.length encoding.length]).map DecodeEvent.line) := by
  obtain ⟨second, more, operands⟩ : ∃ second more, encoding.operandBytes = second :: more := by
    have bounds := encoding.length_bounds
    rw [length, bytes, List.length_cons] at bounds
    exact List.exists_cons_of_length_pos (by omega)
  have opens : Family.ofByte? encoding.opcode.byte = some encoding.family := by
    rw [Family.ofByte?, Opcode.ofByte?_byte]
    rfl
  have fields := encoding.fieldText?_family operands
  have written : encoding.bytes = encoding.opcode.byte :: second :: more := by
    rw [bytes, operands]
  have first_byte : (front ++ (encoding.bytes ++ behind))[front.length]? =
      some encoding.opcode.byte := by
    simp [written]
  have second_byte : (front ++ (encoding.bytes ++ behind))[front.length + 1]? = some second := by
    simp [written]
  have lines : ((encoding.notes signExtend).map SweepEvent.note ++
      [SweepEvent.consumed front.length encoding.length]).map DecodeEvent.line =
        (encoding.fieldNote?.map FieldNote.message).toList.map (Level.trace, ·) ++
          [(.trace, encoding.family.name ++ " | " ++ (encoding.instruction signExtend).text ++
              " (len " ++ encoding.length.repr ++ ")"),
            (.trace, "offset " ++ front.length.repr ++ " | " ++ encoding.length.repr ++
              " bytes consumed")] := by
    rw [notes]
    cases encoding.fieldNote? <;> rfl
  rw [lines, ← fields]
  exact .of first_byte second_byte opens

theorem entries_of_encodings (signExtend : Bool) (encodings : List Encoding)
    (front : List UInt8) :
    Entries (front ++ encodings.flatMap bytes) front.length
      (encodings.map (instruction signExtend))
      ((Sweep.entries (notes signExtend) ⟨partsFrom front.length encodings, none⟩).map
        DecodeEvent.line) := by
  -- The bytes of an encoding go to the front when its entry has been written.
  induction encodings generalizing front with
  | nil => exact .none front.length
  | cons encoding others ih =>
    have entry := entry_of_encoding signExtend encoding front (others.flatMap bytes)
    have later := ih (front ++ encoding.bytes)
    rw [List.append_assoc, List.length_append] at later
    have entries := Entries.next entry later
    rw [← List.map_append] at entries
    exact entries

end Encoding

namespace Program

/-! ## Decoding with a journal -/

/-- Decoding as it runs; its state is the offset that it has come to. -/
def decoding (signExtend : Bool) (image : List UInt8) :
    Transition Nat DecodeError DecodeEvent Program := do
  let instructions ← (Instruction.notingDecoder signExtend).sweep image
  return instructions.toArray

theorem decoding_apply (signExtend : Bool) (image : List UInt8) :
    decoding signExtend image 0 =
      ⟨decode signExtend image, (Encoding.decoder.sweep image).size,
        decodeEvents signExtend image⟩ := by
  have swept := (Instruction.notingDecoder_follows signExtend).sweep_apply image
  rw [decoding, decode_eq_map, decodeEvents_eq]
  cases found : Encoding.decoder.decode image with
  | ok encodings =>
    rw [found] at swept
    rw [Transition.bind_of_ok _ swept, Transition.pure_apply, List.append_nil]
    rfl
  | error error =>
    rw [found] at swept
    rw [Transition.bind_of_error _ swept]
    rfl

/-- Decoding gives up on the instruction at `offset`: the bytes in front of it are an image of their
own, and their journal is the one that was kept so far, with an end. -/
structure GivesUpAt (signExtend : Bool) (image : List UInt8) (error : DecodeError)
    (offset : Nat) : Prop where
  inside : offset < image.length
  undecoded : ∃ cause, Instruction.decodeOne signExtend (image.drop offset) = .error cause ∧
    error = cause.shift offset
  front : ∃ program, decode signExtend (image.take offset) = .ok program ∧
    decodeEvents signExtend (image.take offset) =
      decodeEvents signExtend image ++ [.finished program.size offset]

/-- What the journal of decoding an image says: about every instruction, in the order of the image
and under the offset where the one before it ends, and at last how many there were. -/
structure DecodeJournal (signExtend : Bool) (image : List UInt8) : Prop where
  kept : (decoding signExtend image 0).result = decode signExtend image ∧
    (decoding signExtend image 0).events = decodeEvents signExtend image
  complete : ∀ program : Program, decode signExtend image = .ok program →
    ∃ lines, Entries image 0 program.toList lines ∧
      (decodeEvents signExtend image).map DecodeEvent.line =
        lines ++ [endLine program.size image.length]
  breaks_off : ∀ error : DecodeError, decode signExtend image = .error error →
    GivesUpAt signExtend image error (decoding signExtend image 0).state

theorem decodeEvents_of_encodings (signExtend : Bool) (encodings : List Encoding) :
    decodeEvents signExtend (encodings.flatMap Encoding.bytes) =
      Sweep.entries (Encoding.notes signExtend) ⟨Encoding.partsFrom 0 encodings, none⟩ ++
        [.finished encodings.length (encodings.flatMap Encoding.bytes).length] := by
  rw [decodeEvents_eq, Encoding.sweep_of_finished, Sweep.events, Encoding.length_partsFrom]
  rfl

theorem givesUpAt_of_encodings (signExtend : Bool) (encodings : List Encoding)
    {rest : List UInt8} {cause : DecodeError} (started : rest ≠ [])
    (failed : Encoding.decodeOne rest = .error cause) :
    GivesUpAt signExtend (encodings.flatMap Encoding.bytes ++ rest)
      (cause.shift (encodings.flatMap Encoding.bytes).length)
      (encodings.flatMap Encoding.bytes).length where
  inside := by
    have some_left := List.length_pos_iff.mpr started
    rw [List.length_append]
    omega
  undecoded := by
    rw [List.drop_left]
    exact ⟨cause, by rw [Instruction.decodeOne_eq_map, failed]; rfl, rfl⟩
  front := by
    rw [List.take_left]
    refine ⟨_, decode_eq_ok_iff.mpr ⟨encodings, rfl, rfl⟩, ?_⟩
    rw [decodeEvents_of_encodings, decodeEvents_eq,
      Encoding.sweep_of_error encodings started failed]
    simp [Sweep.events, Sweep.entries]

theorem decode_journaled (signExtend : Bool) (image : List UInt8) :
    DecodeJournal signExtend image where
  kept := by
    rw [decoding_apply]
    exact ⟨rfl, rfl⟩
  complete := by
    intro program decoded
    obtain ⟨encodings, rfl, rfl⟩ := decode_eq_ok_iff.mp decoded
    have entries := Encoding.entries_of_encodings signExtend encodings []
    rw [List.nil_append] at entries
    refine ⟨_, entries, ?_⟩
    rw [decodeEvents_of_encodings, List.map_append, List.size_toArray, List.length_map]
    rfl
  breaks_off := by
    intro error undecoded
    obtain ⟨encodings, rest, rfl, remainder⟩ := Encoding.exists_remainder image
    rw [decode_eq_error_iff, Decoder.decode] at undecoded
    rw [decoding_apply]
    -- The sweep stops behind the last whole encoding; there is something left that is not one.
    obtain rfl | ⟨started, cause, failed⟩ := remainder.finished_or_fails
    · rw [List.append_nil, Encoding.sweep_of_finished] at undecoded
      cases undecoded
    · rw [Encoding.sweep_of_error encodings started failed] at undecoded ⊢
      rw [Sweep.size, Encoding.sum_partsFrom]
      cases undecoded
      exact givesUpAt_of_encodings signExtend encodings started failed

end Program
end Mini8086
