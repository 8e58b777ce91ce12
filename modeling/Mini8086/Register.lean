import Mini8086.Word

/-!
# Registers

Eight word registers, four of which have a low and a high half with a name of its own.  A three-bit
code and a width name each register exactly once.  A byte register reads and writes one half of its
parent, so the file behaves as twelve independent cells: the halves of `ax`, `cx`, `dx` and `bx`,
and the four words without halves.
-/

set_option autoImplicit false

namespace Mini8086

/-- The word registers in the order of their codes. -/
inductive WordRegister where
  | ax | cx | dx | bx | sp | bp | si | di
  deriving DecidableEq, Ord

inductive ByteRegister where
  | al | cl | dl | bl | ah | ch | dh | bh
  deriving DecidableEq, Ord

inductive Half where
  | low
  | high
  deriving DecidableEq

/-- A register as an operand names it; byte registers come before word registers. -/
inductive Register where
  | byte (register : ByteRegister)
  | word (register : WordRegister)
  deriving DecidableEq, Ord

namespace WordRegister

def all : List WordRegister :=
  [.ax, .cx, .dx, .bx, .sp, .bp, .si, .di]

def name : WordRegister → String
  | .ax => "ax"
  | .cx => "cx"
  | .dx => "dx"
  | .bx => "bx"
  | .sp => "sp"
  | .bp => "bp"
  | .si => "si"
  | .di => "di"

def code : WordRegister → Octal
  | .ax => Octal.ofNat 0
  | .cx => Octal.ofNat 1
  | .dx => Octal.ofNat 2
  | .bx => Octal.ofNat 3
  | .sp => Octal.ofNat 4
  | .bp => Octal.ofNat 5
  | .si => Octal.ofNat 6
  | .di => Octal.ofNat 7

def ofCode : Octal → WordRegister
  | 0 => .ax
  | 1 => .cx
  | 2 => .dx
  | 3 => .bx
  | 4 => .sp
  | 5 => .bp
  | 6 => .si
  | 7 => .di

@[simp]
theorem ofCode_code (register : WordRegister) : ofCode register.code = register := by
  cases register <;> rfl

@[simp]
theorem code_ofCode (code : Octal) : (ofCode code).code = code := by
  revert code
  decide

end WordRegister

namespace ByteRegister

def name : ByteRegister → String
  | .al => "al"
  | .cl => "cl"
  | .dl => "dl"
  | .bl => "bl"
  | .ah => "ah"
  | .ch => "ch"
  | .dh => "dh"
  | .bh => "bh"

def code : ByteRegister → Octal
  | .al => Octal.ofNat 0
  | .cl => Octal.ofNat 1
  | .dl => Octal.ofNat 2
  | .bl => Octal.ofNat 3
  | .ah => Octal.ofNat 4
  | .ch => Octal.ofNat 5
  | .dh => Octal.ofNat 6
  | .bh => Octal.ofNat 7

def ofCode : Octal → ByteRegister
  | 0 => .al
  | 1 => .cl
  | 2 => .dl
  | 3 => .bl
  | 4 => .ah
  | 5 => .ch
  | 6 => .dh
  | 7 => .bh

def parent : ByteRegister → WordRegister
  | .al | .ah => .ax
  | .cl | .ch => .cx
  | .dl | .dh => .dx
  | .bl | .bh => .bx

def half : ByteRegister → Half
  | .al | .cl | .dl | .bl => .low
  | .ah | .ch | .dh | .bh => .high

@[simp]
theorem ofCode_code (register : ByteRegister) : ofCode register.code = register := by
  cases register <;> rfl

@[simp]
theorem code_ofCode (code : Octal) : (ofCode code).code = code := by
  revert code
  decide

/-- A byte register is determined by where it lies. -/
theorem eq_of_parent_half {left right : ByteRegister}
    (parents : left.parent = right.parent) (halves : left.half = right.half) : left = right := by
  cases left <;> cases right <;> simp_all [parent, half]

end ByteRegister

namespace Register

def name : Register → String
  | .byte register => register.name
  | .word register => register.name

def width : Register → Width
  | .byte _ => .byte
  | .word _ => .word

def code : Register → Octal
  | .byte register => register.code
  | .word register => register.code

def ofCode (width : Width) (code : Octal) : Register :=
  match width with
  | .byte => .byte (.ofCode code)
  | .word => .word (.ofCode code)

def parent : Register → WordRegister
  | .byte register => register.parent
  | .word register => register

def half? : Register → Option Half
  | .byte register => some register.half
  | .word _ => none

@[simp]
theorem ofCode_width_code (register : Register) :
    ofCode register.width register.code = register := by
  cases register <;> simp [ofCode, width, code]

@[simp]
theorem width_ofCode (width : Width) (code : Octal) : (ofCode width code).width = width := by
  cases width <;> rfl

@[simp]
theorem code_ofCode (width : Width) (code : Octal) : (ofCode width code).code = code := by
  cases width <;> simp [ofCode, Register.code]

end Register

/-! ## The register file -/

structure Registers where
  ax : UInt16 := 0
  cx : UInt16 := 0
  dx : UInt16 := 0
  bx : UInt16 := 0
  sp : UInt16 := 0
  bp : UInt16 := 0
  si : UInt16 := 0
  di : UInt16 := 0
  deriving DecidableEq

namespace Registers

def zero : Registers := {}

def get (registers : Registers) : WordRegister → UInt16
  | .ax => registers.ax
  | .cx => registers.cx
  | .dx => registers.dx
  | .bx => registers.bx
  | .sp => registers.sp
  | .bp => registers.bp
  | .si => registers.si
  | .di => registers.di

def set (registers : Registers) (register : WordRegister) (value : UInt16) : Registers :=
  match register with
  | .ax => { registers with ax := value }
  | .cx => { registers with cx := value }
  | .dx => { registers with dx := value }
  | .bx => { registers with bx := value }
  | .sp => { registers with sp := value }
  | .bp => { registers with bp := value }
  | .si => { registers with si := value }
  | .di => { registers with di := value }

/-- The contents of any register; a byte register's value is extended by zeros. -/
def read (registers : Registers) : Register → UInt16
  | .word register => registers.get register
  | .byte register =>
    match register.half with
    | .low => (Word.low (registers.get register.parent)).toUInt16
    | .high => (Word.high (registers.get register.parent)).toUInt16

/-- The file after any register has been written; a byte register keeps the low byte of the value
and leaves the other half of its parent alone. -/
def write (registers : Registers) (register : Register) (value : UInt16) : Registers :=
  match register with
  | .word register => registers.set register value
  | .byte register =>
    let whole := registers.get register.parent
    match register.half with
    | .low => registers.set register.parent (Word.withLow whole (Word.low value))
    | .high => registers.set register.parent (Word.withHigh whole (Word.low value))

def toList (registers : Registers) : List (WordRegister × UInt16) :=
  WordRegister.all.map fun register => (register, registers.get register)

def text (registers : Registers) : String :=
  let entry := fun (cell : WordRegister × UInt16) =>
    "\"" ++ cell.1.name ++ "\": " ++ Numeral.hex 4 cell.2.toNat
  "\x7b" ++ String.intercalate ", " (registers.toList.map entry) ++ "\x7d"

/-! ## Laws -/

@[simp]
theorem get_set_self (registers : Registers) (register : WordRegister) (value : UInt16) :
    (registers.set register value).get register = value := by
  cases register <;> rfl

theorem get_set_of_ne (registers : Registers) {register other : WordRegister} (value : UInt16)
    (distinct : other ≠ register) :
    (registers.set register value).get other = registers.get other := by
  cases register <;> cases other <;> first | rfl | exact absurd rfl distinct

theorem get_set (registers : Registers) (register other : WordRegister) (value : UInt16) :
    (registers.set register value).get other =
      if other = register then value else registers.get other := by
  split
  · next same => rw [same, get_set_self]
  · next distinct => exact get_set_of_ne registers value distinct

theorem toNat_read_byte (registers : Registers) (register : ByteRegister) :
    (registers.read (.byte register)).toNat =
      match register.half with
      | .low => (registers.get register.parent).toNat % 256
      | .high => (registers.get register.parent).toNat / 256 := by
  simp only [read]
  cases register.half with
  | low => rw [UInt8.toNat_toUInt16, Word.toNat_low]
  | high => rw [UInt8.toNat_toUInt16, Word.toNat_high]

theorem read_write_self (registers : Registers) (register : Register) (value : UInt16) :
    (registers.write register value).read register = register.width.truncate value := by
  cases register with
  | word register => exact get_set_self registers register value
  | byte register =>
    apply UInt16.toNat_inj.mp
    simp only [write, read, Register.width, Width.toNat_truncate_byte]
    cases register.half <;>
      simp [Word.withLow, Word.withHigh, Word.toNat_low]

theorem get_write_of_ne (registers : Registers) {register : Register} {other : WordRegister}
    (value : UInt16) (distinct : other ≠ register.parent) :
    (registers.write register value).get other = registers.get other := by
  cases register with
  | word register => exact get_set_of_ne registers value distinct
  | byte register =>
    simp only [write]
    cases register.half <;> exact get_set_of_ne registers _ distinct

end Registers

end Mini8086
