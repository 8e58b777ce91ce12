import Mathlib
import Mini8086.Register

/-!
# The register file as independent cells

Twelve cells make up the file: the eight byte registers, and the four word registers that have no
halves.  A name is read from its own cells and written to them.  Main statement,
`Registers.refines_cells`: whatever was stored before, a name reads as the numbers most recently
stored in its cells, and a write through one name is seen through no name that has other cells.
-/

set_option autoImplicit false

namespace Mini8086

/-! ## Cells -/

inductive WholeRegister where
  | sp | bp | si | di
  deriving DecidableEq

def WholeRegister.word : WholeRegister → WordRegister
  | .sp => .sp
  | .bp => .bp
  | .si => .si
  | .di => .di

inductive RegisterCell where
  | byte (register : ByteRegister)
  | whole (register : WholeRegister)
  deriving DecidableEq

namespace RegisterCell

def register : RegisterCell → Register
  | .byte register => .byte register
  | .whole register => .word register.word

def capacity : RegisterCell → Nat
  | .byte _ => 256
  | .whole _ => 65536

end RegisterCell

namespace Register

def cells : Register → List RegisterCell
  | .byte register => [.byte register]
  | .word .ax => [.byte .al, .byte .ah]
  | .word .cx => [.byte .cl, .byte .ch]
  | .word .dx => [.byte .dl, .byte .dh]
  | .word .bx => [.byte .bl, .byte .bh]
  | .word .sp => [.whole .sp]
  | .word .bp => [.whole .bp]
  | .word .si => [.whole .si]
  | .word .di => [.whole .di]

def Overlaps (left right : Register) : Prop :=
  ∃ cell ∈ left.cells, cell ∈ right.cells

instance (left right : Register) : Decidable (left.Overlaps right) :=
  inferInstanceAs (Decidable (∃ cell ∈ left.cells, cell ∈ right.cells))

/-- The number that a name stands for where its cells hold these numbers: `low + 256 * high`, or the
number in its only cell. -/
def assemble (contents : RegisterCell → Nat) (register : Register) : Nat :=
  register.cells.foldr (fun cell higher => contents cell + 256 * higher) 0

/-- What a number leaves in a cell when it is stored through a name, if the name has the cell. -/
def stored? (register : Register) (number : Nat) (cell : RegisterCell) : Option Nat :=
  (register.cells.idxOf? cell).map fun position => number / 256 ^ position % cell.capacity

theorem assemble_congr {left right : RegisterCell → Nat} {register : Register}
    (same : ∀ cell ∈ register.cells, left cell = right cell) :
    register.assemble left = register.assemble right := by
  unfold assemble
  exact List.foldr_ext _ _ _ fun cell member higher => by rw [same cell member]

end Register

/-! ## Updates -/

inductive RegisterUpdate where
  | set (register : WordRegister) (value : UInt16)
  | write (register : Register) (value : UInt16)
  deriving DecidableEq

namespace RegisterUpdate

def register : RegisterUpdate → Register
  | .set register _ => .word register
  | .write register _ => register

def value : RegisterUpdate → UInt16
  | .set _ value | .write _ value => value

def apply (registers : Registers) : RegisterUpdate → Registers
  | .set register value => registers.set register value
  | .write register value => registers.write register value

theorem apply_eq_write (registers : Registers) (update : RegisterUpdate) :
    update.apply registers = registers.write update.register update.value := by
  cases update <;> rfl

end RegisterUpdate

def Registers.after (registers : Registers) (history : List RegisterUpdate) : Registers :=
  history.foldl RegisterUpdate.apply registers

/-- The number most recently stored in a cell, or the zero that the file starts with. -/
def lastStored (history : List RegisterUpdate) (cell : RegisterCell) : Nat :=
  (history.reverse.findSome? fun update =>
    update.register.stored? update.value.toNat cell).getD 0

/-! ## Names and their cells -/

def Half.position : Half → Nat
  | .low => 0
  | .high => 1

theorem WholeRegister.word_ne_parent (whole : WholeRegister) (register : ByteRegister) :
    whole.word ≠ register.parent := by
  cases whole <;> cases register <;> decide

theorem Register.idxOf?_byte (word : WordRegister) (register : ByteRegister) :
    (Register.word word).cells.idxOf? (.byte register) =
      if register.parent = word then some register.half.position else none := by
  cases word <;> cases register <;> rfl

theorem Register.idxOf?_whole (word : WordRegister) (whole : WholeRegister) :
    (Register.word word).cells.idxOf? (.whole whole) =
      if whole.word = word then some 0 else none := by
  cases word <;> cases whole <;> rfl

namespace Registers

variable (registers : Registers)

def contents (cell : RegisterCell) : Nat :=
  (registers.read cell.register).toNat

theorem toNat_read_half (register : ByteRegister) :
    (registers.read (.byte register)).toNat =
      (registers.get register.parent).toNat / 256 ^ register.half.position % 256 := by
  have small : (registers.get register.parent).toNat < 65536 :=
    (registers.get register.parent).toNat_lt
  rw [toNat_read_byte]
  cases register.half with
  | low => simp only [Half.position, pow_zero, Nat.div_one]
  | high =>
    simp only [Half.position, pow_one]
    omega

theorem read_write_of_ne {register other : ByteRegister} (value : UInt16)
    (distinct : other ≠ register) :
    (registers.write (.byte register) value).read (.byte other) =
      registers.read (.byte other) := by
  by_cases shared : other.parent = register.parent
  · have halves : other.half ≠ register.half :=
      fun same => distinct (ByteRegister.eq_of_parent_half shared same)
    simp only [read, write, shared]
    cases written : register.half with
    | low =>
      cases looked : other.half with
      | low => exact absurd (looked.trans written.symm) halves
      | high => simp [Word.withLow]
    | high =>
      cases looked : other.half with
      | low => simp [Word.withHigh]
      | high => exact absurd (looked.trans written.symm) halves
  · have kept : (registers.write (.byte register) value).get other.parent =
        registers.get other.parent := registers.get_write_of_ne value shared
    simp only [read, kept]

/-! ## One update -/

theorem contents_write (register : Register) (value : UInt16) (cell : RegisterCell) :
    (registers.write register value).contents cell =
      (register.stored? value.toNat cell).getD (registers.contents cell) := by
  cases register with
  | byte register =>
    cases cell with
    | byte other =>
      by_cases same : other = register
      · subst same
        simp [contents, RegisterCell.register, Register.stored?, Register.cells,
          RegisterCell.capacity, read_write_self, Register.width, Width.toNat_truncate_byte]
      · have apart : RegisterCell.byte register ≠ .byte other := by
          simpa using Ne.symm same
        simp [contents, RegisterCell.register, Register.stored?, Register.cells, apart,
          registers.read_write_of_ne value same]
    | whole whole =>
      have elsewhere : (registers.write (.byte register) value).get whole.word =
          registers.get whole.word :=
        registers.get_write_of_ne value (whole.word_ne_parent register)
      simp [contents, RegisterCell.register, Register.stored?, Register.cells, read, elsewhere]
  | word word =>
    cases cell with
    | byte other =>
      simp only [contents, RegisterCell.register, toNat_read_half, write, get_set,
        Register.stored?, Register.idxOf?_byte, RegisterCell.capacity]
      by_cases held : other.parent = word
      · simp [held]
      · simp [held]
    | whole whole =>
      have small : value.toNat < 65536 := value.toNat_lt
      simp only [contents, RegisterCell.register, read, write, get_set, Register.stored?,
        Register.idxOf?_whole, RegisterCell.capacity]
      by_cases held : whole.word = word
      · simp [held, Nat.mod_eq_of_lt small]
      · simp [held]

@[simp]
theorem read_word (word : WordRegister) : registers.read (.word word) = registers.get word := rfl

theorem toNat_read (register : Register) :
    (registers.read register).toNat = register.assemble registers.contents := by
  cases register with
  | byte register => rfl
  | word word =>
    have small : (registers.get word).toNat < 65536 := (registers.get word).toNat_lt
    rw [read_word]
    cases word <;>
      simp only [Register.assemble, Register.cells, List.foldr, contents, RegisterCell.register,
        WholeRegister.word, read_word, toNat_read_half, ByteRegister.parent, ByteRegister.half,
        Half.position] <;>
      omega

/-- What is written through one name is not seen through a name that shares no cell with it. -/
theorem read_write_of_not_overlaps {register other : Register} (value : UInt16)
    (apart : ¬ register.Overlaps other) :
    (registers.write register value).read other = registers.read other := by
  have kept : ∀ cell ∈ other.cells,
      (registers.write register value).contents cell = registers.contents cell := by
    intro cell its
    have missing : register.stored? value.toNat cell = none := by
      rw [Register.stored?, List.idxOf?_eq_none_iff.mpr fun mine => apart ⟨cell, mine, its⟩]
      rfl
    rw [contents_write, missing, Option.getD_none]
  apply UInt16.toNat_inj.mp
  rw [toNat_read, toNat_read]
  exact Register.assemble_congr kept

/-! ## Many updates -/

theorem after_concat (history : List RegisterUpdate) (update : RegisterUpdate) :
    registers.after (history ++ [update]) = update.apply (registers.after history) := by
  rw [after, List.foldl_append]
  rfl

end Registers

theorem lastStored_concat (history : List RegisterUpdate) (update : RegisterUpdate)
    (cell : RegisterCell) :
    lastStored (history ++ [update]) cell =
      (update.register.stored? update.value.toNat cell).getD (lastStored history cell) := by
  rw [lastStored, List.reverse_concat, List.findSome?_cons]
  cases update.register.stored? update.value.toNat cell <;> rfl

theorem Registers.contents_after (history : List RegisterUpdate) (cell : RegisterCell) :
    (Registers.zero.after history).contents cell = lastStored history cell := by
  induction history using List.reverseRecOn with
  | nil =>
    cases cell with
    | byte register => cases register <;> rfl
    | whole whole => cases whole <;> rfl
  | append_singleton history update ih =>
    rw [after_concat, RegisterUpdate.apply_eq_write, contents_write, ih, lastStored_concat]

/-- The byte written last is the low half of a word that was set before. -/
example : Register.assemble (lastStored [.set .ax 0x1234, .write (.byte .al) 0x01FF])
    (.word .ax) = 0x12FF := by decide

/-! ## Where a name lies -/

/-- The part of a word register that a name stands for. -/
inductive RegisterPart where
  | word
  | low
  | high

def Register.location : Register → WordRegister × RegisterPart
  | .byte .al => (.ax, .low)
  | .byte .cl => (.cx, .low)
  | .byte .dl => (.dx, .low)
  | .byte .bl => (.bx, .low)
  | .byte .ah => (.ax, .high)
  | .byte .ch => (.cx, .high)
  | .byte .dh => (.dx, .high)
  | .byte .bh => (.bx, .high)
  | .word register => (register, .word)

def RegisterPart.half? : RegisterPart → Option Half
  | .word => none
  | .low => some .low
  | .high => some .high

theorem Register.location_eq (register : Register) :
    register.location.1 = register.parent ∧ register.location.2.half? = register.half? := by
  rcases register with register | register <;> cases register <;> exact ⟨rfl, rfl⟩

namespace RegisterPart

def read (whole : UInt16) : RegisterPart → UInt16
  | .word => whole
  | .low => (whole &&& (0x00FF : UInt16)).toUInt8.toUInt16
  | .high => (whole >>> 8).toUInt8.toUInt16

def write (whole value : UInt16) : RegisterPart → UInt16
  | .word => value
  | .low => (whole &&& (0xFF00 : UInt16)) ||| value.toUInt8.toUInt16
  | .high => (whole &&& (0x00FF : UInt16)) ||| (value.toUInt8.toUInt16 <<< 8)

end RegisterPart

namespace Word

theorem ofBytes_eq_or (low high : UInt8) :
    ofBytes low high = (high.toUInt16 <<< 8) ||| low.toUInt16 := by
  have small : low.toNat < 2 ^ 8 := low.toNat_lt
  have shifted : high.toNat <<< 8 < 65536 := by
    have bound := high.toNat_lt
    rw [Nat.shiftLeft_eq]
    omega
  apply UInt16.toNat_inj.mp
  rw [toNat_ofBytes, UInt16.toNat_or, UInt16.toNat_shiftLeft, UInt8.toNat_toUInt16,
    UInt8.toNat_toUInt16]
  have eight : (8 : UInt16).toNat % 16 = 8 := rfl
  rw [eight, Nat.mod_eq_of_lt shifted, ← Nat.shiftLeft_add_eq_or_of_lt small, Nat.shiftLeft_eq]
  omega

theorem or_and (left right mask : UInt16) :
    (left ||| right) &&& mask = (left &&& mask) ||| (right &&& mask) := by
  apply UInt16.toBitVec_inj.mp
  rw [UInt16.toBitVec_and, UInt16.toBitVec_or, UInt16.toBitVec_or, UInt16.toBitVec_and,
    UInt16.toBitVec_and, BitVec.and_or_distrib_right]

theorem mask_halves (byte : UInt8) :
    byte.toUInt16 &&& (0xFF00 : UInt16) = 0 ∧ byte.toUInt16 &&& (0x00FF : UInt16) = byte.toUInt16 ∧
      (byte.toUInt16 <<< 8) &&& (0xFF00 : UInt16) = byte.toUInt16 <<< 8 ∧
      (byte.toUInt16 <<< 8) &&& (0x00FF : UInt16) = 0 := by
  revert byte
  exact Byte.forall_of_codes (by decide +kernel)

theorem low_mask (word : UInt16) : word &&& (0x00FF : UInt16) = (low word).toUInt16 := by
  obtain ⟨_, kept, _, _⟩ := mask_halves (low word)
  obtain ⟨_, _, _, cleared⟩ := mask_halves (high word)
  calc word &&& (0x00FF : UInt16)
    _ = ((high word).toUInt16 <<< 8 ||| (low word).toUInt16) &&& (0x00FF : UInt16) := by
      rw [← ofBytes_eq_or, ofBytes_low_high]
    _ = (low word).toUInt16 := by
      rw [or_and, cleared, kept, UInt16.zero_or]

theorem high_mask (word : UInt16) : word &&& (0xFF00 : UInt16) = (high word).toUInt16 <<< 8 := by
  obtain ⟨cleared, _, _, _⟩ := mask_halves (low word)
  obtain ⟨_, _, kept, _⟩ := mask_halves (high word)
  calc word &&& (0xFF00 : UInt16)
    _ = ((high word).toUInt16 <<< 8 ||| (low word).toUInt16) &&& (0xFF00 : UInt16) := by
      rw [← ofBytes_eq_or, ofBytes_low_high]
    _ = (high word).toUInt16 <<< 8 := by
      rw [or_and, cleared, kept, UInt16.or_zero]

theorem high_eq_shift (word : UInt16) : high word = (word >>> 8).toUInt8 := by
  have shifted : word >>> 8 = word / 256 := by
    apply UInt16.toNat_inj.mp
    rw [UInt16.toNat_shiftRight, UInt16.toNat_div]
    exact Nat.shiftRight_eq_div_pow _ 8
  rw [high, shifted]

theorem withLow_eq_mask (word : UInt16) (byte : UInt8) :
    withLow word byte = (word &&& (0xFF00 : UInt16)) ||| byte.toUInt16 := by
  rw [withLow, ofBytes_eq_or, high_mask]

theorem withHigh_eq_mask (word : UInt16) (byte : UInt8) :
    withHigh word byte = (word &&& (0x00FF : UInt16)) ||| (byte.toUInt16 <<< 8) := by
  rw [withHigh, ofBytes_eq_or, low_mask, UInt16.or_comm]

theorem low_eq_mask (word : UInt16) : low word = (word &&& (0x00FF : UInt16)).toUInt8 := by
  rw [low_mask]
  simp

end Word

theorem Registers.read_eq_location (registers : Registers) (register : Register) :
    registers.read register =
      register.location.2.read (registers.get register.location.1) := by
  cases register with
  | word register => rfl
  | byte register =>
    cases register <;>
      simp only [read, Register.location, RegisterPart.read, ByteRegister.half,
        ByteRegister.parent, Word.low_eq_mask, Word.high_eq_shift]

theorem Registers.write_eq_location (registers : Registers) (register : Register)
    (value : UInt16) :
    registers.write register value =
      registers.set register.location.1
        (register.location.2.write (registers.get register.location.1) value) := by
  cases register with
  | word register => rfl
  | byte register =>
    cases register <;>
      simp only [write, Register.location, RegisterPart.write, ByteRegister.half,
        ByteRegister.parent, Word.withLow_eq_mask, Word.withHigh_eq_mask, Word.low]

/-! ## The refinement -/

/-- The file is twelve cells, each of which holds what was last stored in it. -/
structure CellRefinement : Prop where
  reads : ∀ (history : List RegisterUpdate) (register : Register),
    ((Registers.zero.after history).read register).toNat =
      register.assemble (lastStored history)
  byte_write : ∀ (registers : Registers) (register : ByteRegister) (value : UInt16),
    ((registers.write (.byte register) value).read (.byte register)).toNat =
        value.toNat % 256 ∧
      (∀ other ≠ register, (registers.write (.byte register) value).read (.byte other) =
        registers.read (.byte other)) ∧
      ∀ word ≠ register.parent, (registers.write (.byte register) value).get word =
        registers.get word
  byte_read : ∀ (registers : Registers) (register : ByteRegister),
    (registers.read (.byte register)).toNat < 256
  word_views : ∀ (registers : Registers) (word : WordRegister),
    registers.get word = registers.read (.word word) ∧
      registers.toList.lookup word = some (registers.read (.word word))
  listed : ∀ registers : Registers, registers.toList.map Prod.fst = WordRegister.all
  hidden : ∀ (registers : Registers) (update : RegisterUpdate) (other : Register),
    ¬ update.register.Overlaps other →
      (update.apply registers).read other = registers.read other
  located : ∀ (registers : Registers) (register : Register),
    registers.read register = register.location.2.read (registers.get register.location.1) ∧
      ∀ value : UInt16, registers.write register value =
        registers.set register.location.1
          (register.location.2.write (registers.get register.location.1) value)

theorem Registers.refines_cells : CellRefinement where
  reads := by
    intro history register
    rw [toNat_read, funext (contents_after history)]
  byte_write := by
    intro registers register value
    refine ⟨?_, ?_, ?_⟩
    · rw [read_write_self]
      exact Width.toNat_truncate_byte value
    · intro other distinct
      exact registers.read_write_of_ne value distinct
    · intro word elsewhere
      exact registers.get_write_of_ne value elsewhere
  byte_read := by
    intro registers register
    rw [toNat_read_half]
    exact Nat.mod_lt _ (by decide)
  word_views := by
    intro registers word
    exact ⟨rfl, by cases word <;> rfl⟩
  listed := by
    intro registers
    rfl
  hidden := by
    intro registers update other apart
    rw [update.apply_eq_write]
    exact registers.read_write_of_not_overlaps update.value apart
  located := by
    intro registers register
    exact ⟨registers.read_eq_location register, registers.write_eq_location register⟩

end Mini8086
