/-!
# Numbers, bytes, words and numerals

Sizes and offsets are numbers of 64 bits.  The bits of a byte are counted from the least significant
one; a field that reaches past the byte is cut off there, so every request has an answer.  A word is
stored and encoded low byte first: splitting a word and joining its halves are inverse, and a word's
value is `low + 256 * high`.  Numerals are filled up with zeros to a least number of digits, and a
larger number takes as many as it needs.
-/

set_option autoImplicit false

namespace Mini8086

/-! ## Sizes -/

/-- How many numbers an index, a length or a distance can be. -/
def numberLimit : Nat := 18446744073709551616

def checkedAdd? (left right : Nat) : Option Nat :=
  if left + right < numberLimit then some (left + right) else none

theorem checkedAdd?_of_lt {left right : Nat} (small : left + right < numberLimit) :
    checkedAdd? left right = some (left + right) :=
  if_pos small

theorem checkedAdd?_of_le {left right : Nat} (large : numberLimit ≤ left + right) :
    checkedAdd? left right = none :=
  if_neg (Nat.not_lt_of_le large)

/-! ## Bit fields -/

/-- A three-bit code, as encodings hold it for registers, address bases and operations. -/
abbrev Octal : Type :=
  Fin 8

def Octal.ofNat (number : Nat) : Octal :=
  Fin.ofNat 8 number

namespace Byte

/-- The `count` bits that start at bit `first`; positions past bit 7 read as zero. -/
def bits (byte : UInt8) (first count : Nat) : UInt8 :=
  UInt8.ofNat ((byte.toNat >>> min first 8) % (1 <<< min count 8))

def bit (byte : UInt8) (index : Nat) : Bool :=
  bits byte index 1 == 1

def top (byte : UInt8) (count : Nat) : UInt8 :=
  bits byte (8 - min count 8) count

def octal (byte : UInt8) (first : Nat) : Octal :=
  .ofNat (bits byte first 3).toNat

/-- A property of all bytes can be checked code by code. -/
theorem forall_of_codes {property : UInt8 → Prop}
    (holds : ∀ code : Fin 256, property (UInt8.ofNat code.val)) (byte : UInt8) : property byte := by
  have found := holds ⟨byte.toNat, byte.toNat_lt⟩
  rwa [UInt8.ofNat_toNat] at found

end Byte

/-! ## Widths -/

inductive Width where
  | byte
  | word
  deriving DecidableEq

namespace Width

def ofBit : Bool → Width
  | false => .byte
  | true => .word

def isWord : Width → Bool
  | .byte => false
  | .word => true

def name : Width → String
  | .byte => "byte"
  | .word => "word"

def bytes : Width → Nat
  | .byte => 1
  | .word => 2

def truncate (width : Width) (value : UInt16) : UInt16 :=
  match width with
  | .byte => value % 256
  | .word => value

@[simp]
theorem isWord_ofBit (flag : Bool) : (ofBit flag).isWord = flag := by
  cases flag <;> rfl

@[simp]
theorem ofBit_isWord (width : Width) : ofBit width.isWord = width := by
  cases width <;> rfl

theorem toNat_truncate_byte (value : UInt16) :
    (Width.byte.truncate value).toNat = value.toNat % 256 := by
  simp [truncate]

end Width

/-! ## Words -/

namespace Word

/-- The word with these halves. -/
def ofBytes (low high : UInt8) : UInt16 :=
  low.toUInt16 + 256 * high.toUInt16

def low (word : UInt16) : UInt8 :=
  word.toUInt8

def high (word : UInt16) : UInt8 :=
  (word / 256).toUInt8

def withLow (word : UInt16) (byte : UInt8) : UInt16 :=
  ofBytes byte (high word)

def withHigh (word : UInt16) (byte : UInt8) : UInt16 :=
  ofBytes (low word) byte

def bytes (word : UInt16) : List UInt8 :=
  [low word, high word]

/-! ## Laws -/

theorem toNat_ofBytes (low high : UInt8) :
    (ofBytes low high).toNat = low.toNat + 256 * high.toNat := by
  have lowSmall : low.toNat < 256 := low.toNat_lt
  have highSmall : high.toNat < 256 := high.toNat_lt
  simp only [ofBytes, UInt16.toNat_add, UInt16.toNat_mul, UInt8.toNat_toUInt16]
  have literal : (256 : UInt16).toNat = 256 := rfl
  rw [literal]
  omega

theorem toNat_low (word : UInt16) : (low word).toNat = word.toNat % 256 := by
  simp [low]

theorem toNat_high (word : UInt16) : (high word).toNat = word.toNat / 256 := by
  have small : word.toNat < 65536 := word.toNat_lt
  simp only [high, UInt16.toNat_toUInt8, UInt16.toNat_div]
  have literal : (256 : UInt16).toNat = 256 := rfl
  rw [literal]
  omega

@[simp]
theorem low_ofBytes (low high : UInt8) : Word.low (ofBytes low high) = low := by
  apply UInt8.toNat_inj.mp
  have lowSmall : low.toNat < 256 := low.toNat_lt
  rw [toNat_low, toNat_ofBytes]
  omega

@[simp]
theorem high_ofBytes (low high : UInt8) : Word.high (ofBytes low high) = high := by
  apply UInt8.toNat_inj.mp
  have lowSmall : low.toNat < 256 := low.toNat_lt
  rw [toNat_high, toNat_ofBytes]
  omega

@[simp]
theorem ofBytes_low_high (word : UInt16) : ofBytes (low word) (high word) = word := by
  apply UInt16.toNat_inj.mp
  rw [toNat_ofBytes, toNat_low, toNat_high]
  omega

end Word

/-! ## Numerals -/

namespace Numeral

def padded (width : Nat) (digits : List Char) : String :=
  String.ofList (List.replicate (width - digits.length) '0' ++ digits)

/-- A hexadecimal numeral of at least `width` digits. -/
def hex (width number : Nat) : String :=
  "0x" ++ padded width ((Nat.toDigits 16 number).map Char.toUpper)

def binary (width number : Nat) : String :=
  padded width (Nat.toDigits 2 number)

def bit (value : Bool) : String :=
  if value then "1" else "0"

end Numeral

end Mini8086
