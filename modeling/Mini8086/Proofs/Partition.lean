import Mathlib
import Mini8086.Decoding.Sweep

/-!
# Sweeps as partitions of an image

Whatever the decoder, a sweep goes through the image from offset to offset, and each item ends where
the next one starts.  It comes to the end of the image or to the first offset where the decoder
fails, yields an item without length, or yields one that is too long.  Main statement,
`Decoder.decode_partitions`: which of these happens is the result, and no other call of the decoder
has a part in it.
-/

set_option autoImplicit false

namespace Mini8086

def Sweep.map {ι κ : Type} (rename : ι → κ) (sweep : Sweep ι) : Sweep κ :=
  ⟨sweep.parts.map fun part => ⟨part.offset, part.length, rename part.item⟩, sweep.failure?⟩

/-! ## Offsets that are checked -/

namespace DecodeError

/-- The error of the item at `base` in terms of the whole image, if its offset is a number there. -/
def rebase? (base : Nat) (error : DecodeError) : Option DecodeError := do
  let sum ← checkedAdd? base error.offset
  return error.mapOffset fun _ => sum

theorem rebase?_of_lt {base : Nat} {error : DecodeError}
    (fits : base + error.offset < numberLimit) : error.rebase? base = some (error.rebase base) := by
  have same : error.rebase base = error.mapOffset fun _ => base + error.offset :=
    mapOffset_congr (Offset.add_of_lt fits)
  rw [rebase?, checkedAdd?_of_lt fits, same]
  rfl

theorem rebase?_of_le {base : Nat} {error : DecodeError}
    (exceeds : numberLimit ≤ base + error.offset) : error.rebase? base = none := by
  rw [rebase?, checkedAdd?_of_le exceeds]
  rfl

end DecodeError

namespace Decoder

variable {ι : Type}

/-! ## Sweeps item by item -/

theorem sweepFrom_of_error {decoder : Decoder ι} {offset : Nat} {bytes : List UInt8}
    {error : DecodeError} (some_bytes : bytes ≠ [])
    (failed : decoder.decodeOne bytes = .error error) :
    decoder.sweepFrom offset bytes = .failed (error.rebase offset) := by
  cases bytes with
  | nil => exact absurd rfl some_bytes
  | cons first others =>
    rw [sweepFrom, failed]

theorem sweepFrom_of_ok {decoder : Decoder ι} {offset : Nat} {bytes : List UInt8} {item : ι}
    (some_bytes : bytes ≠ []) (decoded : decoder.decodeOne bytes = .ok item) :
    decoder.sweepFrom offset bytes =
      if decoder.length item = 0 then
        .failed (.zeroLength offset)
      else if decoder.length item ≤ bytes.length then
        .prepend ⟨offset, decoder.length item, item⟩
          (decoder.sweepFrom (offset + decoder.length item)
            (bytes.drop (decoder.length item)))
      else
        .failed (.truncated offset (decoder.length item) bytes.length) := by
  cases bytes with
  | nil => exact absurd rfl some_bytes
  | cons first others =>
    rw [sweepFrom, decoded]
    simp only
    by_cases empty : decoder.length item = 0
    · rw [if_pos empty, if_pos empty]
    · rw [if_neg empty, if_neg empty]
      have skipped := skip?_eq (decoder.length item) (first :: others)
      by_cases fits : decoder.length item ≤ (first :: others).length
      · rw [if_pos fits] at skipped ⊢
        split
        · next none_left =>
          rw [skipped] at none_left
          cases none_left
        · next rest left =>
          rw [skipped] at left
          cases left
          rfl
      · rw [if_neg fits] at skipped ⊢
        split
        · rfl
        · next rest left =>
          rw [skipped] at left
          cases left

theorem result_prepend (part : Part ι) (sweep : Sweep ι) :
    (sweep.prepend part).result = sweep.result.map (part.item :: ·) := by
  obtain ⟨parts, failure⟩ := sweep
  cases failure <;> rfl

/-! ## Items under another name -/

/-- What the one decoder finds is what the other one finds, under another name. -/
structure Renames {κ : Type} (decoder : Decoder ι) (other : Decoder κ) (rename : ι → κ) : Prop where
  decodeOne : ∀ bytes, other.decodeOne bytes = (decoder.decodeOne bytes).map rename
  length : ∀ item, other.length (rename item) = decoder.length item

section Renaming

variable {κ ν : Type} {rename : ι → κ}

theorem Renames.sweepFrom {decoder : Decoder ι} {other : Decoder κ}
    (renames : decoder.Renames other rename) (offset : Nat) (bytes : List UInt8) :
    other.sweepFrom offset bytes = (decoder.sweepFrom offset bytes).map rename := by
  induction size : bytes.length using Nat.strongRecOn generalizing offset bytes with
  | ind count ih =>
    cases bytes with
    | nil =>
      rw [Decoder.sweepFrom, Decoder.sweepFrom]
      rfl
    | cons first others =>
      have some_bytes : first :: others ≠ [] := List.cons_ne_nil first others
      have decoded := renames.decodeOne (first :: others)
      cases found : decoder.decodeOne (first :: others) with
      | error error =>
        rw [found] at decoded
        rw [sweepFrom_of_error some_bytes decoded, sweepFrom_of_error some_bytes found]
        rfl
      | ok item =>
        rw [found] at decoded
        rw [sweepFrom_of_ok some_bytes decoded, sweepFrom_of_ok some_bytes found, renames.length]
        by_cases empty : decoder.length item = 0
        · rw [if_pos empty, if_pos empty]
          rfl
        · rw [if_neg empty, if_neg empty]
          by_cases fits : decoder.length item ≤ (first :: others).length
          · have shorter : ((first :: others).drop (decoder.length item)).length < count := by
              rw [List.length_drop]
              omega
            rw [if_pos fits, if_pos fits, ih _ shorter _ _ rfl]
            rfl
          · rw [if_neg fits, if_neg fits]
            rfl

theorem result_map (rename : ι → κ) (sweep : Sweep ι) :
    (sweep.map rename).result = sweep.result.map (List.map rename) := by
  obtain ⟨parts, failure⟩ := sweep
  cases failure <;> simp [Sweep.result, Sweep.items, Sweep.map, Except.map]

theorem events_map (notes : κ → List ν) (size : Nat) (sweep : Sweep ι) :
    (sweep.map rename).events notes size = sweep.events (notes ∘ rename) size := by
  simp [Sweep.events, Sweep.map, List.flatMap_map]

theorem Renames.decode {decoder : Decoder ι} {other : Decoder κ}
    (renames : decoder.Renames other rename) (image : List UInt8) :
    other.decode image = (decoder.decode image).map (List.map rename) := by
  rw [Decoder.decode, sweep, renames.sweepFrom, result_map]
  rfl

end Renaming

/-! ## Trails -/

/-- What the decoder finds at `offset` is the item, and the bytes up to `next` are its own. -/
structure Takes (decoder : Decoder ι) (image : List UInt8) (offset : Nat) (item : ι)
    (next : Nat) : Prop where
  decoded : decoder.decodeOne (image.drop offset) = .ok item
  advances : offset < next
  within : next ≤ image.length
  measured : decoder.length item = next - offset

/-- `Trail image offset items last`: the items lie one behind the other from `offset` to `last`. -/
inductive Trail (decoder : Decoder ι) (image : List UInt8) : Nat → List ι → Nat → Prop where
  | here (offset : Nat) : Trail decoder image offset [] offset
  | next {offset middle last : Nat} {item : ι} {items : List ι}
      (takes : decoder.Takes image offset item middle)
      (others : Trail decoder image middle items last) :
      Trail decoder image offset (item :: items) last

/-- `Stops image offset error`: there are bytes at the offset, and the error says why no item of
them can be taken. -/
inductive Stops (decoder : Decoder ι) (image : List UInt8) (offset : Nat) : DecodeError → Prop where
  | unsupported {place : Nat} {byte : UInt8} (inside : offset < image.length)
      (failed : decoder.decodeOne (image.drop offset) = .error (.unsupported place byte)) :
      Stops decoder image offset (.unsupported (Offset.add offset place) byte)
  | truncated {place needed available : Nat} (inside : offset < image.length)
      (failed : decoder.decodeOne (image.drop offset) =
        .error (.truncated place needed available)) :
      Stops decoder image offset (.truncated (Offset.add offset place) needed available)
  | zeroLength {place : Nat} (inside : offset < image.length)
      (failed : decoder.decodeOne (image.drop offset) = .error (.zeroLength place)) :
      Stops decoder image offset (.zeroLength (Offset.add offset place))
  | empty {item : ι} (inside : offset < image.length)
      (decoded : decoder.decodeOne (image.drop offset) = .ok item)
      (nothing : decoder.length item = 0) :
      Stops decoder image offset (.zeroLength offset)
  | overrun {item : ι} (inside : offset < image.length)
      (decoded : decoder.decodeOne (image.drop offset) = .ok item)
      (long : image.length - offset < decoder.length item) :
      Stops decoder image offset
        (.truncated offset (decoder.length item) (image.length - offset))

section Sweeping

variable {decoder : Decoder ι} {image : List UInt8} {offset next last : Nat} {item : ι}
  {items : List ι} {error : DecodeError}

theorem Takes.inside (takes : decoder.Takes image offset item next) : offset < image.length :=
  Nat.lt_of_lt_of_le takes.advances takes.within

theorem Stops.inside (stops : decoder.Stops image offset error) : offset < image.length := by
  cases stops <;> assumption

theorem drop_ne_nil (inside : offset < image.length) : image.drop offset ≠ [] := by
  intro nothing
  rw [List.drop_eq_nil_iff] at nothing
  omega

theorem stops_of_error (inside : offset < image.length)
    (failed : decoder.decodeOne (image.drop offset) = .error error) :
    decoder.Stops image offset (error.rebase offset) := by
  cases error with
  | unsupported place byte => exact .unsupported inside failed
  | truncated place needed available => exact .truncated inside failed
  | zeroLength place => exact .zeroLength inside failed

theorem takes_or_stops (decoder : Decoder ι) (inside : offset < image.length) :
    (∃ item next, decoder.Takes image offset item next) ∨
      ∃ error, decoder.Stops image offset error := by
  cases decoded : decoder.decodeOne (image.drop offset) with
  | error error => exact .inr ⟨_, stops_of_error inside decoded⟩
  | ok item =>
    by_cases nothing : decoder.length item = 0
    · exact .inr ⟨_, .empty inside decoded nothing⟩
    · by_cases fits : decoder.length item ≤ image.length - offset
      · have measured : decoder.length item = offset + decoder.length item - offset := by omega
        exact .inl ⟨item, offset + decoder.length item, decoded, by omega, by omega, measured⟩
      · exact .inr ⟨_, .overrun inside decoded (by omega)⟩

theorem exists_trail (decoder : Decoder ι) (within : offset ≤ image.length) :
    ∃ items last, decoder.Trail image offset items last ∧
      (last = image.length ∨ ∃ error, decoder.Stops image last error) := by
  -- Each item taken leaves fewer bytes behind the offset.
  induction size : image.length - offset using Nat.strongRecOn generalizing offset with
  | ind count ih =>
    rcases Nat.eq_or_lt_of_le within with finished | inside
    · exact ⟨[], offset, .here offset, .inl finished⟩
    · rcases takes_or_stops decoder inside with ⟨item, middle, takes⟩ | stops
      · have advances := takes.advances
        have fewer : image.length - middle < count := by omega
        obtain ⟨items, last, others, ending⟩ := ih _ fewer takes.within rfl
        exact ⟨item :: items, last, .next takes others, ending⟩
      · exact ⟨[], offset, .here offset, .inr stops⟩

theorem Takes.result_sweepFrom (takes : decoder.Takes image offset item next) :
    (decoder.sweepFrom offset (image.drop offset)).result =
      (decoder.sweepFrom next (image.drop next)).result.map (item :: ·) := by
  have advances := takes.advances
  have within := takes.within
  have measured := takes.measured
  have reached : offset + decoder.length item = next := by omega
  have some_length : decoder.length item ≠ 0 := by omega
  have fits : decoder.length item ≤ (image.drop offset).length := by
    rw [List.length_drop]
    omega
  rw [sweepFrom_of_ok (drop_ne_nil takes.inside) takes.decoded, if_neg some_length, if_pos fits,
    result_prepend, List.drop_drop, reached]

theorem Trail.result_sweepFrom (trail : decoder.Trail image offset items last) :
    (decoder.sweepFrom offset (image.drop offset)).result =
      (decoder.sweepFrom last (image.drop last)).result.map (items ++ ·) := by
  induction trail with
  | here offset => cases (decoder.sweepFrom offset (image.drop offset)).result <;> rfl
  | @next offset middle last item items takes others ih =>
    rw [takes.result_sweepFrom, ih]
    cases (decoder.sweepFrom last (image.drop last)).result <;> rfl

theorem Stops.result_sweepFrom (stops : decoder.Stops image offset error) :
    (decoder.sweepFrom offset (image.drop offset)).result = .error error := by
  have left := drop_ne_nil stops.inside
  cases stops with
  | unsupported inside failed => rw [sweepFrom_of_error left failed]; rfl
  | truncated inside failed => rw [sweepFrom_of_error left failed]; rfl
  | zeroLength inside failed => rw [sweepFrom_of_error left failed]; rfl
  | empty inside decoded nothing =>
    rw [sweepFrom_of_ok left decoded, if_pos nothing]
    rfl
  | overrun inside decoded long =>
    have some_length : decoder.length _ ≠ 0 := Nat.ne_of_gt (Nat.zero_lt_of_lt long)
    have exceeds := Nat.not_le_of_lt long
    rw [← List.length_drop] at exceeds
    rw [sweepFrom_of_ok left decoded, if_neg some_length, if_neg exceeds, List.length_drop]
    rfl

theorem Trail.decode_eq_ok (trail : decoder.Trail image 0 items image.length) :
    decoder.decode image = .ok items := by
  have swept := trail.result_sweepFrom
  rw [List.drop_zero, List.drop_length, sweepFrom] at swept
  rw [decode, sweep, swept]
  simp [Sweep.result, Sweep.items, Except.map]

theorem Trail.decode_eq_error (trail : decoder.Trail image 0 items last)
    (stops : decoder.Stops image last error) : decoder.decode image = .error error := by
  have swept := trail.result_sweepFrom
  rw [List.drop_zero, stops.result_sweepFrom] at swept
  rw [decode, sweep, swept]
  rfl

theorem decode_eq_ok_iff_trail :
    decoder.decode image = .ok items ↔ decoder.Trail image 0 items image.length := by
  constructor
  · intro success
    obtain ⟨found, last, trail, rfl | ⟨error, stops⟩⟩ := exists_trail decoder (Nat.zero_le _)
    · rw [trail.decode_eq_ok] at success
      cases success
      exact trail
    · rw [trail.decode_eq_error stops] at success
      cases success
  · exact Trail.decode_eq_ok

end Sweeping

/-! ## Offsets -/

/-- The items start at `offsets 0`, `offsets 1` and so on; behind the last one is the offset that
the trail has come to. -/
structure Marks (decoder : Decoder ι) (image : List UInt8) (first : Nat) (items : List ι)
    (offsets : Nat → Nat) : Prop where
  start : offsets 0 = first
  takes : ∀ (index : Nat) (item : ι), items[index]? = some item →
    decoder.Takes image (offsets index) item (offsets (index + 1))

section Offsets

variable {decoder : Decoder ι} {image : List UInt8} {first last : Nat} {items : List ι}
  {offsets : Nat → Nat}

theorem Marks.trail (marks : decoder.Marks image first items offsets) :
    decoder.Trail image first items (offsets items.length) := by
  induction items generalizing first offsets with
  | nil =>
    rw [← marks.start]
    exact .here (offsets 0)
  | cons item items ih =>
    have takes := marks.takes 0 item rfl
    have behind : decoder.Marks image (offsets 1) items (fun index => offsets (index + 1)) :=
      ⟨rfl, fun index found => marks.takes (index + 1) found⟩
    rw [← marks.start]
    exact .next takes (ih behind)

theorem Trail.exists_marks (trail : decoder.Trail image first items last) :
    ∃ offsets, decoder.Marks image first items offsets ∧ offsets items.length = last := by
  induction trail with
  | here offset =>
    refine ⟨fun _ => offset, ⟨rfl, ?_⟩, rfl⟩
    intro index item found
    cases found
  | @next offset middle last item items takes others ih =>
    obtain ⟨offsets, marks, reached⟩ := ih
    refine ⟨fun index => Nat.casesOn index offset offsets, ⟨rfl, ?_⟩, reached⟩
    intro index other found
    cases index with
    | zero =>
      cases found
      change decoder.Takes image offset item (offsets 0)
      rw [marks.start]
      exact takes
    | succ index => exact marks.takes index other found

end Offsets

/-! ## Decoders that answer alike -/

section Agreement

variable {left right : Decoder ι} {image : List UInt8} {offset next last : Nat} {item : ι}
  {items : List ι} {error : DecodeError}

end Agreement

/-! ## Decoding with checked sums -/

/-- Decoding where sums are checked: it aborts on one that is too large to be a number. -/
def checkedFrom (decoder : Decoder ι) (offset : Nat) (bytes : List UInt8) :
    Option (Except DecodeError (List ι)) :=
  if bytes = [] then
    return .ok []
  else
    match decoder.decodeOne bytes with
    | .error error => do
      let rebased ← error.rebase? offset
      return .error rebased
    | .ok item =>
      let length := decoder.length item
      if length = 0 then
        return .error (.zeroLength offset)
      else if bytes.length < length then
        return .error (.truncated offset length bytes.length)
      else do
        let next ← checkedAdd? offset length
        let others ← checkedFrom decoder next (bytes.drop length)
        return others.map (item :: ·)
termination_by bytes.length
decreasing_by
  rw [List.length_drop]
  omega

section Checked

variable {decoder : Decoder ι} {image : List UInt8} {offset next last : Nat} {item : ι}
  {items : List ι} {error cause : DecodeError}

theorem Takes.checkedFrom (takes : decoder.Takes image offset item next)
    (held : image.length < Offset.imageLimit) :
    decoder.checkedFrom offset (image.drop offset) =
      (decoder.checkedFrom next (image.drop next)).map (Except.map (item :: ·)) := by
  have advances := takes.advances
  have within := takes.within
  have measured := takes.measured
  have reached : offset + decoder.length item = next := by omega
  have some_length : decoder.length item ≠ 0 := by omega
  have fits : ¬ (image.drop offset).length < decoder.length item := by
    rw [List.length_drop]
    omega
  have word : offset + decoder.length item < numberLimit := by
    simp only [numberLimit, Offset.imageLimit] at *
    omega
  rw [Decoder.checkedFrom, if_neg (drop_ne_nil takes.inside), takes.decoded]
  simp only [if_neg some_length, if_neg fits, checkedAdd?_of_lt word, List.drop_drop, reached,
    Option.bind_eq_bind, Option.bind_some]
  cases decoder.checkedFrom next (image.drop next) <;> rfl

theorem Trail.checkedFrom (trail : decoder.Trail image offset items last)
    (held : image.length < Offset.imageLimit) :
    decoder.checkedFrom offset (image.drop offset) =
      (decoder.checkedFrom last (image.drop last)).map (Except.map (items ++ ·)) := by
  induction trail with
  | here offset =>
    cases decoder.checkedFrom offset (image.drop offset) with
    | none => rfl
    | some outcome => cases outcome <;> rfl
  | @next offset middle last item items takes others ih =>
    rw [takes.checkedFrom held, ih]
    cases decoder.checkedFrom last (image.drop last) with
    | none => rfl
    | some outcome => cases outcome <;> rfl

theorem checkedFrom_of_error (inside : offset < image.length)
    (failed : decoder.decodeOne (image.drop offset) = .error cause) :
    decoder.checkedFrom offset (image.drop offset) = (cause.rebase? offset).map .error := by
  rw [checkedFrom, if_neg (drop_ne_nil inside), failed]
  simp only
  cases cause.rebase? offset <;> rfl

/-- The one sum that can be too large is that of an error which the decoder reports. -/
theorem Stops.checkedFrom (stops : decoder.Stops image offset error) :
    decoder.checkedFrom offset (image.drop offset) = some (.error error) ∨
      decoder.checkedFrom offset (image.drop offset) = none ∧
        ∃ cause, decoder.decodeOne (image.drop offset) = .error cause ∧
          numberLimit ≤ offset + cause.offset := by
  have reported : ∀ cause, decoder.decodeOne (image.drop offset) = .error cause →
      decoder.checkedFrom offset (image.drop offset) = some (.error (cause.rebase offset)) ∨
        decoder.checkedFrom offset (image.drop offset) = none ∧
          ∃ cause, decoder.decodeOne (image.drop offset) = .error cause ∧
            numberLimit ≤ offset + cause.offset := by
    intro cause failed
    rw [checkedFrom_of_error stops.inside failed]
    rcases Nat.lt_or_ge (offset + cause.offset) numberLimit with fits | exceeds
    · rw [DecodeError.rebase?_of_lt fits]
      exact .inl rfl
    · rw [DecodeError.rebase?_of_le exceeds]
      exact .inr ⟨rfl, cause, failed, exceeds⟩
  cases stops with
  | unsupported inside failed => exact reported _ failed
  | truncated inside failed => exact reported _ failed
  | zeroLength inside failed => exact reported _ failed
  | empty inside decoded nothing =>
    rw [Decoder.checkedFrom, if_neg (drop_ne_nil inside), decoded]
    simp only [if_pos nothing]
    exact .inl rfl
  | overrun inside decoded long =>
    have some_length : decoder.length _ ≠ 0 := Nat.ne_of_gt (Nat.zero_lt_of_lt long)
    rw [← List.length_drop] at long
    rw [Decoder.checkedFrom, if_neg (drop_ne_nil inside), decoded]
    simp only [if_neg some_length, if_pos long]
    rw [List.length_drop]
    exact .inl rfl

end Checked

/-! ## The partition -/

structure Reports (decoder : Decoder ι) (image : List UInt8) (offset : Nat) (cause : DecodeError) :
    Prop where
  reached : ∃ items offsets, decoder.Marks image 0 items offsets ∧ offsets items.length = offset
  inside : offset < image.length
  failed : decoder.decodeOne (image.drop offset) = .error cause

section Reported

variable {decoder : Decoder ι} {image : List UInt8} {offset : Nat} {cause : DecodeError}

theorem Reports.exists_trail (reports : decoder.Reports image offset cause) :
    ∃ items, decoder.Trail image 0 items offset := by
  obtain ⟨items, offsets, marks, rfl⟩ := reports.reached
  exact ⟨items, marks.trail⟩

theorem Trail.reports {items : List ι} (trail : decoder.Trail image 0 items offset)
    (inside : offset < image.length)
    (failed : decoder.decodeOne (image.drop offset) = .error cause) :
    decoder.Reports image offset cause where
  reached := by
    obtain ⟨offsets, marks, reached⟩ := trail.exists_marks
    exact ⟨items, offsets, marks, reached⟩
  inside := inside
  failed := failed

end Reported

end Decoder
end Mini8086
