import Mini8086.Transition
import Mini8086.Word

/-!
# Memory

A fixed number of bytes, and counters of what was read and written. An access that does not lie
within memory fails, changes nothing and counts nothing. `byteAt` is the view that the laws are
stated on: every operation on memory is determined by what it does to it.
-/

set_option autoImplicit false

namespace Mini8086

/-- How many accesses succeeded, and how many bytes they moved. -/
structure AccessCounts where
  bytesRead : Nat := 0
  bytesWritten : Nat := 0
  reads : Nat := 0
  writes : Nat := 0
  deriving DecidableEq

structure OutOfRange where
  address : Nat
  length : Nat
  deriving DecidableEq

inductive Access where
  | read (address length : Nat)
  | write (address length : Nat)
  deriving DecidableEq

structure Memory (size : Nat) where
  cells : Vector UInt8 size
  counts : AccessCounts

abbrev MemoryAction (size : Nat) : Type → Type :=
  Transition (Memory size) OutOfRange Access

def OutOfRange.message (error : OutOfRange) : String :=
  "access of " ++ error.length.repr ++ " bytes at " ++ Numeral.hex 4 error.address ++
    " is out of range"

namespace Access

def message : Access → String
  | .read address length =>
    "read request: " ++ length.repr ++ " bytes at " ++ Numeral.hex 4 address
  | .write address length =>
    "write request: " ++ length.repr ++ " bytes at " ++ Numeral.hex 4 address

def level (_ : Access) : Level :=
  .trace

end Access

namespace AccessCounts

def add (counts : AccessCounts) : Access → AccessCounts
  | .read _ length =>
    { counts with bytesRead := counts.bytesRead + length, reads := counts.reads + 1 }
  | .write _ length =>
    { counts with bytesWritten := counts.bytesWritten + length, writes := counts.writes + 1 }

def text (counts : AccessCounts) : String :=
  "MemoryStats \x7b bytes_read: " ++ counts.bytesRead.repr ++
    ", bytes_written: " ++ counts.bytesWritten.repr ++
    ", num_reads: " ++ counts.reads.repr ++
    ", num_writes: " ++ counts.writes.repr ++ " \x7d"

end AccessCounts

namespace Memory

variable {size : Nat}

def zero (size : Nat) : Memory size :=
  ⟨Vector.replicate size 0, {}⟩

/-- The byte at an address; there are only zeros beyond memory. -/
def byteAt (memory : Memory size) (address : Nat) : UInt8 :=
  memory.cells[address]?.getD 0

def slice (memory : Memory size) (address length : Nat) : List UInt8 :=
  (List.range length).map fun index => memory.byteAt (address + index)

/-- The cells with `bytes` written over them from an address on, as far as they reach. -/
def overwrite (cells : Vector UInt8 size) (address : Nat) : List UInt8 → Vector UInt8 size
  | [] => cells
  | byte :: rest => overwrite (cells.setIfInBounds address byte) (address + 1) rest

def sameContents (left right : Memory size) : Bool :=
  left.cells == right.cells

@[inline]
def counted (access : Access) : MemoryAction size Unit := fun memory =>
  ⟨.ok (), ⟨memory.cells, memory.counts.add access⟩, [access]⟩

@[inline]
def require (address length : Nat) : MemoryAction size Unit :=
  if address + length ≤ size then Transition.done () else Transition.fail ⟨address, length⟩

def read (address length : Nat) : MemoryAction size (List UInt8) := do
  require address length
  counted (.read address length)
  Transition.inspect fun memory => memory.slice address length

def readByte (address : Nat) : MemoryAction size UInt8 := do
  require address 1
  counted (.read address 1)
  Transition.inspect fun memory => memory.byteAt address

/-- Reads a word, low byte first. -/
def readWord (address : Nat) : MemoryAction size UInt16 := do
  require address 2
  counted (.read address 2)
  Transition.inspect fun memory =>
    Word.ofBytes (memory.byteAt address) (memory.byteAt (address + 1))

def write (address : Nat) (bytes : List UInt8) : MemoryAction size Unit := do
  require address bytes.length
  counted (.write address bytes.length)
  Transition.update fun memory => ⟨overwrite memory.cells address bytes, memory.counts⟩

def writeByte (address : Nat) (byte : UInt8) : MemoryAction size Unit :=
  write address [byte]

def writeWord (address : Nat) (word : UInt16) : MemoryAction size Unit :=
  write address (Word.bytes word)

def text (memory : Memory size) : String :=
  "Memory \x7b size: " ++ size.repr ++ ", stats: " ++ memory.counts.text ++ " \x7d"

/-! ## Laws -/

@[simp]
theorem byteAt_zero (address : Nat) : (zero size).byteAt address = 0 := by
  simp only [byteAt, zero]
  cases found : (Vector.replicate size (0 : UInt8))[address]? with
  | none => rfl
  | some byte =>
    obtain ⟨_, equal⟩ := Vector.getElem?_eq_some_iff.mp found
    rw [Vector.getElem_replicate] at equal
    simp [← equal]

theorem byteAt_overwrite (cells : Vector UInt8 size) (counts : AccessCounts) (address : Nat)
    (bytes : List UInt8) (fits : address + bytes.length ≤ size) (position : Nat) :
    byteAt ⟨overwrite cells address bytes, counts⟩ position =
      if address ≤ position then bytes[position - address]?.getD (byteAt ⟨cells, counts⟩ position)
      else byteAt ⟨cells, counts⟩ position := by
  induction bytes generalizing cells address with
  | nil => simp [overwrite]
  | cons byte rest ih =>
    have restFits : address + 1 + rest.length ≤ size := by
      simp only [List.length_cons] at fits
      omega
    rw [overwrite, ih _ _ restFits]
    simp only [byteAt, Vector.getElem?_setIfInBounds]
    have inside : address < size := by
      simp only [List.length_cons] at fits
      omega
    rcases Nat.lt_trichotomy position address with before | same | behind
    · have below : ¬ address + 1 ≤ position := by omega
      have below' : ¬ address ≤ position := by omega
      have distinct : ¬ address = position := by omega
      simp [below, below', distinct]
    · subst same
      have notBehind : ¬ position + 1 ≤ position := by omega
      simp [inside, notBehind]
    · have above : address + 1 ≤ position := behind
      have above' : address ≤ position := by omega
      have distinct : ¬ address = position := by omega
      obtain ⟨index, rfl⟩ := Nat.exists_eq_add_of_le above
      have first : address + 1 + index - (address + 1) = index := by omega
      have second : address + 1 + index - address = index + 1 := by omega
      simp [above, above', distinct, first, second]

theorem read_apply (memory : Memory size) (address length : Nat) :
    read address length memory =
      if address + length ≤ size then
        ⟨.ok (memory.slice address length),
          ⟨memory.cells, memory.counts.add (.read address length)⟩, [.read address length]⟩
      else ⟨.error ⟨address, length⟩, memory, []⟩ := by
  by_cases fits : address + length ≤ size
  · simp only [read, require, if_pos fits]
    rfl
  · simp only [read, require, if_neg fits]
    rfl

theorem readByte_apply (memory : Memory size) (address : Nat) :
    readByte address memory =
      if address + 1 ≤ size then
        ⟨.ok (memory.byteAt address), ⟨memory.cells, memory.counts.add (.read address 1)⟩,
          [.read address 1]⟩
      else ⟨.error ⟨address, 1⟩, memory, []⟩ := by
  by_cases fits : address + 1 ≤ size
  · simp only [readByte, require, if_pos fits]
    rfl
  · simp only [readByte, require, if_neg fits]
    rfl

theorem readWord_apply (memory : Memory size) (address : Nat) :
    readWord address memory =
      if address + 2 ≤ size then
        ⟨.ok (Word.ofBytes (memory.byteAt address) (memory.byteAt (address + 1))),
          ⟨memory.cells, memory.counts.add (.read address 2)⟩, [.read address 2]⟩
      else ⟨.error ⟨address, 2⟩, memory, []⟩ := by
  by_cases fits : address + 2 ≤ size
  · simp only [readWord, require, if_pos fits]
    rfl
  · simp only [readWord, require, if_neg fits]
    rfl

theorem write_apply (memory : Memory size) (address : Nat) (bytes : List UInt8) :
    write address bytes memory =
      if address + bytes.length ≤ size then
        ⟨.ok (), ⟨overwrite memory.cells address bytes,
          memory.counts.add (.write address bytes.length)⟩, [.write address bytes.length]⟩
      else ⟨.error ⟨address, bytes.length⟩, memory, []⟩ := by
  by_cases fits : address + bytes.length ≤ size
  · simp only [write, require, if_pos fits]
    rfl
  · simp only [write, require, if_neg fits]
    rfl

end Memory
end Mini8086
