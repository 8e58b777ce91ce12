import Mini8086.Transition
import Mini8086.Word

/-!
# Decoding a whole image

A decoder reads one item off the front of a byte string and says how long the item is.  A sweep
applies it to an image again and again, each time behind the item before, until the image is used up
or the decoder stops.  It is safe for every decoder: an item without length and an item that reaches
past the image are errors, so a sweep always ends and never leaves the image.
-/

set_option autoImplicit false

namespace Mini8086

/-! ## Offsets -/

namespace Offset

/-- No memory holds an image of this many bytes. -/
def imageLimit : Nat := 9223372036854775808

/-- The sum of the offset of an item and an offset into it, which wraps around; beyond the images
that memory holds, offsets are counted without bound. -/
def add (base offset : Nat) : Nat :=
  if base < imageLimit then (base + offset) % numberLimit else base + offset

theorem add_of_lt {base offset : Nat} (fits : base + offset < numberLimit) :
    add base offset = base + offset := by
  unfold add
  split
  · exact Nat.mod_eq_of_lt fits
  · rfl

theorem add_of_le_imageLimit {base offset : Nat} (small : offset ≤ imageLimit) :
    add base offset = base + offset := by
  unfold add
  split
  · next inside =>
    have fits : base + offset < numberLimit := by
      simp only [numberLimit, imageLimit] at *
      omega
    exact Nat.mod_eq_of_lt fits
  · rfl

end Offset

/-! ## Errors -/

inductive DecodeError where
  /-- The byte at `offset` continues no encoding. -/
  | unsupported (offset : Nat) (byte : UInt8)
  /-- The instruction at `offset` does not end within the input. -/
  | truncated (offset needed available : Nat)
  /-- The instruction at `offset` takes no bytes, so decoding would not advance. -/
  | zeroLength (offset : Nat)
  deriving DecidableEq

namespace DecodeError

def offset : DecodeError → Nat
  | .unsupported offset _ => offset
  | .truncated offset _ _ => offset
  | .zeroLength offset => offset

def mapOffset (change : Nat → Nat) : DecodeError → DecodeError
  | .unsupported offset byte => .unsupported (change offset) byte
  | .truncated offset needed available => .truncated (change offset) needed available
  | .zeroLength offset => .zeroLength (change offset)

def shift (base : Nat) : DecodeError → DecodeError :=
  mapOffset (base + ·)

def rebase (base : Nat) : DecodeError → DecodeError :=
  mapOffset (Offset.add base)

def message : DecodeError → String
  | .unsupported offset byte =>
    "unsupported encoding " ++ Numeral.hex 2 byte.toNat ++ " at offset " ++ offset.repr
  | .truncated offset needed available =>
    "truncated input at offset " ++ offset.repr ++ ": instruction needs at least " ++ needed.repr ++
      " bytes, " ++ available.repr ++ " available"
  | .zeroLength offset => "zero-length instruction at offset " ++ offset.repr

theorem mapOffset_congr {change other : Nat → Nat} {error : DecodeError}
    (same : change error.offset = other error.offset) :
    error.mapOffset change = error.mapOffset other := by
  cases error <;> simp only [offset] at same <;> simp only [mapOffset, same]

@[simp]
theorem shift_zero (error : DecodeError) : error.shift 0 = error := by
  cases error <;> simp [shift, mapOffset]

theorem shift_shift (outer inner : Nat) (error : DecodeError) :
    (error.shift inner).shift outer = error.shift (outer + inner) := by
  cases error <;> simp [shift, mapOffset, Nat.add_assoc]

theorem rebase_eq_shift {base : Nat} {error : DecodeError}
    (small : error.offset ≤ Offset.imageLimit) : error.rebase base = error.shift base :=
  mapOffset_congr (Offset.add_of_le_imageLimit small)

end DecodeError

/-! ## Sweeps -/

/-- Reads one item off the front of a non-empty byte string; errors count from its first byte. -/
structure Decoder (ι : Type) where
  decodeOne : List UInt8 → Except DecodeError ι
  length : ι → Nat

structure Part (ι : Type) where
  offset : Nat
  length : Nat
  item : ι

/-- The items that were decoded, and what stopped the sweep before the end of the image. -/
structure Sweep (ι : Type) where
  parts : List (Part ι)
  failure? : Option DecodeError

/-- What a sweep reports while it runs; a decoder adds notes of its own. -/
inductive SweepEvent (ν : Type) where
  | note (remark : ν)
  | consumed (offset length : Nat)
  | finished (items bytes : Nat)

def skip? : Nat → List UInt8 → Option (List UInt8)
  | 0, bytes => some bytes
  | _ + 1, [] => none
  | count + 1, _ :: rest => skip? count rest

theorem skip?_eq (count : Nat) (bytes : List UInt8) :
    skip? count bytes = if count ≤ bytes.length then some (bytes.drop count) else none := by
  induction bytes generalizing count with
  | nil => cases count <;> simp [skip?]
  | cons byte rest ih => cases count <;> simp [skip?, ih]

theorem length_of_skip? {count : Nat} {bytes rest : List UInt8}
    (skipped : skip? count bytes = some rest) : count + rest.length = bytes.length := by
  rw [skip?_eq] at skipped
  split at skipped
  · next fits =>
    cases skipped
    rw [List.length_drop]
    omega
  · cases skipped

namespace Sweep

variable {ι ν : Type}

def prepend (part : Part ι) (sweep : Sweep ι) : Sweep ι :=
  ⟨part :: sweep.parts, sweep.failure?⟩

def failed (error : DecodeError) : Sweep ι :=
  ⟨[], some error⟩

def items (sweep : Sweep ι) : List ι :=
  sweep.parts.map Part.item

def result (sweep : Sweep ι) : Except DecodeError (List ι) :=
  match sweep.failure? with
  | none => .ok sweep.items
  | some error => .error error

/-- What was reported on the way, where `notes` are the decoder's own remarks on an item and `size`
is the size of the image. An item that stops the sweep leaves no event. -/
def events (notes : ι → List ν) (size : Nat) (sweep : Sweep ι) : List (SweepEvent ν) :=
  (sweep.parts.flatMap fun part =>
      (notes part.item).map .note ++ [.consumed part.offset part.length]) ++
    match sweep.failure? with
    | none => [.finished sweep.parts.length size]
    | some _ => []

end Sweep

namespace Decoder

variable {ι : Type}

def sweepFrom (decoder : Decoder ι) (offset : Nat) (bytes : List UInt8) : Sweep ι :=
  match bytes with
  | [] => ⟨[], none⟩
  | first :: others =>
    match decoder.decodeOne (first :: others) with
    | .error error => .failed (error.rebase offset)
    | .ok item =>
      let length := decoder.length item
      if length = 0 then
        .failed (.zeroLength offset)
      else
        match _skipped : skip? length (first :: others) with
        | none => .failed (.truncated offset length (first :: others).length)
        | some rest => .prepend ⟨offset, length, item⟩ (sweepFrom decoder (offset + length) rest)
termination_by bytes.length
decreasing_by
  have shorter := length_of_skip? ‹skip? _ _ = some rest›
  omega

def sweep (decoder : Decoder ι) (image : List UInt8) : Sweep ι :=
  decoder.sweepFrom 0 image

def decode (decoder : Decoder ι) (image : List UInt8) : Except DecodeError (List ι) :=
  (decoder.sweep image).result

end Decoder

namespace SweepEvent

variable {ν : Type}

def level (noteLevel : ν → Level) : SweepEvent ν → Level
  | .note remark => noteLevel remark
  | .consumed .. => .trace
  | .finished .. => .info

def message (noteMessage : ν → String) : SweepEvent ν → String
  | .note remark => noteMessage remark
  | .consumed offset length => "offset " ++ offset.repr ++ " | " ++ length.repr ++ " bytes consumed"
  | .finished items bytes =>
    "decoded " ++ items.repr ++ " instructions from " ++ bytes.repr ++ " bytes"

end SweepEvent

end Mini8086
