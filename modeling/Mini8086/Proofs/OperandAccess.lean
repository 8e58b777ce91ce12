import Mini8086.Execution.Execute

/-!
# Operands of a machine

Whether an operand can be read or written depends on the operand alone, never on the machine.
Main statements, `read_apply` and `write_apply`: an access fails with that static fault and leaves
the machine as it was, or it succeeds, does what `valueOf` or `storing` says, and is counted.
-/

set_option autoImplicit false

namespace Mini8086

/-! ## Faults of operands -/

def MemoryOperand.fault? (place : MemoryOperand) (index : Nat) : Option Fault :=
  match place.absolute? with
  | none => some (.unresolvableOperand index (.memory place))
  | some address =>
    if address.toNat + place.width.bytes ≤ memorySize then none
    else some (.memory index ⟨address.toNat, place.width.bytes⟩)

theorem MemoryOperand.fits_of_no_fault {place : MemoryOperand} {index : Nat}
    (fine : place.fault? index = none) :
    ∃ address, place.absolute? = some address ∧
      address.toNat + place.width.bytes ≤ memorySize := by
  unfold fault? at fine
  split at fine
  · cases fine
  · next address found =>
    split at fine
    · next fits => exact ⟨address, found, fits⟩
    · cases fine

namespace Operand

def readFault? (operand : Operand) (index : Nat) : Option Fault :=
  match operand with
  | .register _ | .immediate _ => none
  | .memory place => place.fault? index
  | .relative _ => some (.unresolvableOperand index operand)

def writeFault? (operand : Operand) (index : Nat) : Option Fault :=
  match operand with
  | .register _ => none
  | .memory place => place.fault? index
  | .immediate _ | .relative _ => some (.unresolvableOperand index operand)

@[simp]
theorem readFault?_register (register : Register) (index : Nat) :
    (Operand.register register).readFault? index = none := rfl

@[simp]
theorem readFault?_immediate (constant : Immediate) (index : Nat) :
    (Operand.immediate constant).readFault? index = none := rfl

@[simp]
theorem writeFault?_register (register : Register) (index : Nat) :
    (Operand.register register).writeFault? index = none := rfl

def accesses (make : Nat → Nat → Access) (operand : Operand) : List Access :=
  match operand with
  | .memory place =>
    (place.absolute?.map fun address => make address.toNat place.width.bytes).toList
  | .register _ | .immediate _ | .relative _ => []

theorem accesses_eq_absolute? (make : Nat → Nat → Access) (operand : Operand) :
    operand.accesses make =
      (operand.absolute?.map fun address =>
        make address.toNat operand.workingWidth.bytes).toList := by
  cases operand <;> rfl

end Operand

/-! ## Values of operands -/

def Width.encode (width : Width) (value : UInt16) : List UInt8 :=
  match width with
  | .byte => [Word.low value]
  | .word => Word.bytes value

theorem Width.length_encode (width : Width) (value : UInt16) :
    (width.encode value).length = width.bytes := by
  cases width <;> rfl

def Memory.valueAt {size : Nat} (memory : Memory size) (address : Nat) (width : Width) : UInt16 :=
  match width with
  | .byte => (memory.byteAt address).toUInt16
  | .word => Word.ofBytes (memory.byteAt address) (memory.byteAt (address + 1))

namespace Machine

/-- The value of an operand; one that cannot be resolved counts as zero. -/
def valueOf (machine : Machine) (operand : Operand) : UInt16 :=
  match operand with
  | .register register => machine.registers.read register
  | .memory place =>
    (place.absolute?.map fun address => machine.memory.valueAt address.toNat place.width).getD 0
  | .immediate constant => constant.value
  | .relative _ => 0

/-- The machine with a value stored in an operand, where nothing is counted. -/
def storing (machine : Machine) (operand : Operand) (value : UInt16) : Machine :=
  match operand with
  | .register register => { machine with registers := machine.registers.write register value }
  | .memory place =>
    match place.absolute? with
    | some address =>
      { machine with
        memory :=
          ⟨Memory.overwrite machine.memory.cells address.toNat (place.width.encode value),
            machine.memory.counts⟩ }
    | none => machine
  | .immediate _ | .relative _ => machine

def counting (machine : Machine) (accesses : List Access) : Machine :=
  { machine with
    memory := ⟨machine.memory.cells, accesses.foldl AccessCounts.add machine.memory.counts⟩ }

section Counting

variable (machine : Machine) (accesses : List Access)

@[simp]
theorem counting_nil : machine.counting [] = machine := rfl

theorem counting_append (others : List Access) :
    machine.counting (accesses ++ others) = (machine.counting accesses).counting others := by
  simp [counting]

@[simp]
theorem ip_counting : (machine.counting accesses).ip = machine.ip := rfl

@[simp]
theorem flags_counting : (machine.counting accesses).flags = machine.flags := rfl

@[simp]
theorem registers_counting : (machine.counting accesses).registers = machine.registers := rfl

@[simp]
theorem cells_counting :
    (machine.counting accesses).memory.cells = machine.memory.cells := rfl

@[simp]
theorem valueOf_counting (operand : Operand) :
    (machine.counting accesses).valueOf operand = machine.valueOf operand := by
  cases operand <;> rfl

theorem storing_counting (operand : Operand) (value : UInt16) :
    (machine.counting accesses).storing operand value =
      (machine.storing operand value).counting accesses := by
  cases operand with
  | register register => rfl
  | memory place =>
    simp only [storing]
    cases place.absolute? <;> rfl
  | immediate constant => rfl
  | relative displacement => rfl

end Counting

section Storing

variable (machine : Machine) (operand : Operand) (value : UInt16)

@[simp]
theorem ip_storing : (machine.storing operand value).ip = machine.ip := by
  unfold storing
  split
  · rfl
  · split <;> rfl
  · rfl
  · rfl

@[simp]
theorem flags_storing : (machine.storing operand value).flags = machine.flags := by
  unfold storing
  split
  · rfl
  · split <;> rfl
  · rfl
  · rfl

@[simp]
theorem counts_storing :
    (machine.storing operand value).memory.counts = machine.memory.counts := by
  unfold storing
  split
  · rfl
  · split <;> rfl
  · rfl
  · rfl

end Storing

end Machine

/-! ## Accesses in closed form -/

namespace Execution

theorem onMemory_of_ok {α : Type} {action : MemoryAction memorySize α} {machine : Machine}
    {value : α} {memory : Memory memorySize} {accesses : List Access}
    (succeeded : action machine.memory = ⟨.ok value, memory, accesses⟩) :
    onMemory action machine = ⟨.ok value, { machine with memory }, accesses.map .accessed⟩ := by
  obtain ⟨registers, flags, before, ip⟩ := machine
  simp only [onMemory]
  rw [succeeded]

theorem onMemory_of_error {α : Type} {action : MemoryAction memorySize α} {machine : Machine}
    {error : OutOfRange}
    (failed : action machine.memory = ⟨.error error, machine.memory, []⟩) :
    onMemory action machine = ⟨.error (.memory machine.ip error), machine, []⟩ := by
  obtain ⟨registers, flags, before, ip⟩ := machine
  simp only [onMemory]
  rw [failed]
  rfl

theorem addressOf_then {α : Type} (place : MemoryOperand) (next : Nat → Execution α)
    (machine : Machine) :
    (addressOf place >>= next) machine =
      match place.absolute? with
      | some address => next address.toNat machine
      | none => ⟨.error (.unresolvableOperand machine.ip (.memory place)), machine, []⟩ := by
  rw [addressOf]
  cases place.absolute? <;> rfl

def readAt (address : Nat) (width : Width) : Execution UInt16 :=
  match width with
  | .byte => do
    let byte ← onMemory (Memory.readByte address)
    return byte.toUInt16
  | .word => onMemory (Memory.readWord address)

def writeAt (address : Nat) (width : Width) (value : UInt16) : Execution Unit :=
  match width with
  | .byte => onMemory (Memory.writeByte address (Word.low value))
  | .word => onMemory (Memory.writeWord address value)

theorem read_memory (place : MemoryOperand) :
    read (.memory place) = addressOf place >>= fun address => readAt address place.width := rfl

theorem write_memory (place : MemoryOperand) (value : UInt16) :
    write (.memory place) value =
      addressOf place >>= fun address => writeAt address place.width value := rfl

theorem readAt_apply (address : Nat) (width : Width) (machine : Machine) :
    readAt address width machine =
      if address + width.bytes ≤ memorySize then
        ⟨.ok (machine.memory.valueAt address width),
          machine.counting [.read address width.bytes], [.accessed (.read address width.bytes)]⟩
      else ⟨.error (.memory machine.ip ⟨address, width.bytes⟩), machine, []⟩ := by
  cases width with
  | byte =>
    have access := Memory.readByte_apply machine.memory address
    by_cases fits : address + Width.byte.bytes ≤ memorySize
    · rw [if_pos fits]
      rw [if_pos (by exact fits)] at access
      exact Transition.bind_of_ok _ (onMemory_of_ok access)
    · rw [if_neg fits]
      rw [if_neg (by exact fits)] at access
      exact Transition.bind_of_error _ (onMemory_of_error access)
  | word =>
    have access := Memory.readWord_apply machine.memory address
    by_cases fits : address + Width.word.bytes ≤ memorySize
    · rw [if_pos fits]
      rw [if_pos (by exact fits)] at access
      exact onMemory_of_ok access
    · rw [if_neg fits]
      rw [if_neg (by exact fits)] at access
      exact onMemory_of_error access

/-- A read fails with the operand's fault, or yields its value and is counted. -/
theorem read_apply (operand : Operand) (machine : Machine) :
    read operand machine =
      match operand.readFault? machine.ip with
      | some fault => ⟨.error fault, machine, []⟩
      | none =>
        ⟨.ok (machine.valueOf operand), machine.counting (operand.accesses .read),
          (operand.accesses .read).map .accessed⟩ := by
  cases operand with
  | register register => rfl
  | immediate constant => rfl
  | relative displacement => rfl
  | memory place =>
    rw [read_memory, addressOf_then]
    simp only [Operand.readFault?, MemoryOperand.fault?]
    cases found : place.absolute? with
    | none => rfl
    | some address =>
      simp only [readAt_apply]
      by_cases fits : address.toNat + place.width.bytes ≤ memorySize
      · simp [Machine.valueOf, Operand.accesses, found, fits]
      · simp [fits]

theorem writeAt_apply (address : Nat) (width : Width) (value : UInt16) (machine : Machine) :
    writeAt address width value machine =
      if address + width.bytes ≤ memorySize then
        ⟨.ok (),
          { machine with
            memory :=
              ⟨Memory.overwrite machine.memory.cells address (width.encode value),
                machine.memory.counts.add (.write address width.bytes)⟩ },
          [.accessed (.write address width.bytes)]⟩
      else ⟨.error (.memory machine.ip ⟨address, width.bytes⟩), machine, []⟩ := by
  have whole : writeAt address width value =
      onMemory (Memory.write address (width.encode value)) := by
    cases width <;> rfl
  have access := Memory.write_apply machine.memory address (width.encode value)
  rw [Width.length_encode] at access
  rw [whole]
  by_cases fits : address + width.bytes ≤ memorySize
  · rw [if_pos fits] at access ⊢
    exact onMemory_of_ok access
  · rw [if_neg fits] at access ⊢
    exact onMemory_of_error access

/-- A write fails with the operand's fault, or stores the value and is counted. -/
theorem write_apply (operand : Operand) (value : UInt16) (machine : Machine) :
    write operand value machine =
      match operand.writeFault? machine.ip with
      | some fault => ⟨.error fault, machine, []⟩
      | none =>
        ⟨.ok (), (machine.storing operand value).counting (operand.accesses .write),
          (operand.accesses .write).map .accessed⟩ := by
  cases operand with
  | register register => rfl
  | immediate constant => rfl
  | relative displacement => rfl
  | memory place =>
    rw [write_memory, addressOf_then]
    simp only [Operand.writeFault?, MemoryOperand.fault?]
    cases found : place.absolute? with
    | none => rfl
    | some address =>
      simp only [writeAt_apply]
      by_cases fits : address.toNat + place.width.bytes ≤ memorySize
      · simp [Machine.storing, Machine.counting, Operand.accesses, found, fits]
      · simp [fits]

section Outcomes

variable {operand : Operand} {machine : Machine}

theorem read_of_fault {fault : Fault} (failed : operand.readFault? machine.ip = some fault) :
    read operand machine = ⟨.error fault, machine, []⟩ := by
  rw [read_apply, failed]

theorem read_of_no_fault (readable : operand.readFault? machine.ip = none) :
    read operand machine =
      ⟨.ok (machine.valueOf operand), machine.counting (operand.accesses .read),
        (operand.accesses .read).map .accessed⟩ := by
  rw [read_apply, readable]

theorem write_of_fault (value : UInt16) {fault : Fault}
    (failed : operand.writeFault? machine.ip = some fault) :
    write operand value machine = ⟨.error fault, machine, []⟩ := by
  rw [write_apply, failed]

theorem write_of_no_fault (value : UInt16) (writable : operand.writeFault? machine.ip = none) :
    write operand value machine =
      ⟨.ok (), (machine.storing operand value).counting (operand.accesses .write),
        (operand.accesses .write).map .accessed⟩ := by
  rw [write_apply, writable]

end Outcomes

end Execution
end Mini8086
