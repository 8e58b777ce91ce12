import Mini8086.Proofs.Atomicity
import Mini8086.Proofs.ReferenceResults
import Mini8086.Proofs.RegisterCells

/-!
# What executions leave alone

An instruction stores its result in its destination and nowhere else.  Main statement,
`Execution.changes_confined`: where an execution succeeds, registers and memory are as they were
outside the destination, a comparison changes neither, a jump changes nothing at all, and a step
moves the index in addition.
-/

set_option autoImplicit false

namespace Mini8086

/-! ## Storing in an operand -/

/-- Outside the operand, registers and memory are as they were; nothing can be stored in an
immediate value or a distance. -/
def Operand.Confines (operand : Operand) (before after : Machine) : Prop :=
  match operand with
  | .register (.word named) =>
    (∀ other ≠ named, after.registers.get other = before.registers.get other) ∧
      after.memory.cells = before.memory.cells
  | .register (.byte named) =>
    (∀ other ≠ named.parent, after.registers.get other = before.registers.get other) ∧
      (∀ other ≠ named, after.registers.read (.byte other) =
        before.registers.read (.byte other)) ∧
      after.memory.cells = before.memory.cells
  | .memory place =>
    after.registers = before.registers ∧
      ∃ address, place.start? = some address ∧ address + place.width.bytes ≤ memorySize ∧
        ∀ position, position < address ∨ address + place.width.bytes ≤ position →
          after.memory.byteAt position = before.memory.byteAt position
  | .immediate _ | .relative _ => False

theorem Memory.byteAt_overwrite_of_outside {size : Nat} (cells : Vector UInt8 size)
    (counts : AccessCounts) {address position : Nat} {bytes : List UInt8}
    (fits : address + bytes.length ≤ size)
    (outside : position < address ∨ address + bytes.length ≤ position) :
    Memory.byteAt ⟨overwrite cells address bytes, counts⟩ position =
      Memory.byteAt ⟨cells, counts⟩ position := by
  rw [byteAt_overwrite cells counts address bytes fits]
  rcases outside with before | behind
  · rw [if_neg (by omega)]
  · rw [if_pos (by omega), List.getElem?_eq_none (by omega), Option.getD_none]

namespace Operand

variable {operand : Operand} {index : Nat}

theorem confines_storing (machine : Machine) (writable : operand.writeFault? index = none)
    (value : UInt16) : operand.Confines machine (machine.storing operand value) := by
  cases operand with
  | register register =>
    cases register with
    | word register =>
      exact ⟨fun other elsewhere => machine.registers.get_set_of_ne value elsewhere, rfl⟩
    | byte register =>
      refine ⟨?_, ?_, rfl⟩
      · intro other elsewhere
        exact machine.registers.get_write_of_ne value elsewhere
      · intro other distinct
        exact machine.registers.read_write_of_ne value distinct
  | memory place =>
    obtain ⟨address, found, fits⟩ := place.fits_of_no_fault writable
    have start : place.start? = some address.toNat := by
      rw [place.start?_eq, found, Option.map_some]
    refine ⟨?_, address.toNat, start, fits, ?_⟩
    · simp only [Machine.storing, found]
    · intro position outside
      rw [← place.width.length_encode value] at fits outside
      simp only [Machine.storing, found]
      exact Memory.byteAt_overwrite_of_outside _ _ fits outside
  | immediate constant => cases writable
  | relative displacement => cases writable

theorem Confines.congr {before after other : Machine} (confined : operand.Confines before after)
    (registers : other.registers = after.registers)
    (contents : other.memory.cells = after.memory.cells) : operand.Confines before other := by
  have bytes : other.memory.byteAt = after.memory.byteAt := by
    funext position
    rw [Memory.byteAt, Memory.byteAt, contents]
  unfold Confines at confined ⊢
  rw [registers, contents, bytes]
  exact confined

end Operand

/-! ## Executions and steps -/

/-- What an instruction that was executed has left alone, access counters apart. -/
structure Instruction.Frame (instruction : Instruction) (before after : Machine) : Prop where
  ip : after.ip = before.ip
  stored : ∀ operation, instruction.mnemonic = .data operation → operation ≠ .arithmetic .cmp →
    instruction.destination.Confines before after
  compared : instruction.mnemonic = .data (.arithmetic .cmp) →
    after.registers = before.registers ∧ after.memory.cells = before.memory.cells
  jumped : ∀ jump, instruction.mnemonic = .branch jump → after = before

theorem Instruction.frame_execute {rule : SignRule} {instruction : Instruction} {machine : Machine}
    {offset : Int} (succeeded : (instruction.execute rule machine).result = .ok offset) :
    instruction.Frame machine (instruction.execute rule machine).state where
  ip := instruction.ip_execute rule machine
  stored := by
    intro operation named writes
    have fine := ((result_execute_eq_ok_iff rule).mp succeeded).1
    have stores := DataOperation.stores_iff.mpr writes
    have writable := writable_of_stores named stores fine
    rw [execute_of_no_fault rule fine, effect_of_data rule named, finished, if_pos stores]
    exact (Operand.confines_storing machine writable _).congr rfl rfl
  compared := by
    intro named
    have fine := ((result_execute_eq_ok_iff rule).mp succeeded).1
    rw [execute_of_no_fault rule fine, effect_of_data rule named]
    exact ⟨rfl, rfl⟩
  jumped := by
    intro jump named
    exact Execution.state_execute_of_branch rule named machine

theorem Execution.changes_confined (rule : SignRule) (program : Program) (machine : Machine) :
    (∀ (instruction : Instruction) (offset : Int),
        (instruction.execute rule machine).result = .ok offset →
          instruction.Frame machine (instruction.execute rule machine).state) ∧
      ∀ last, (step rule program).LeadsTo machine last →
        ∃ instruction, program[machine.ip]? = some instruction ∧
          (instruction.execute rule machine).result.isOk ∧
          last = (instruction.execute rule machine).state.atIndex last.ip ∧
          instruction.Frame machine (last.atIndex machine.ip) := by
  constructor
  · intro instruction offset succeeded
    exact Instruction.frame_execute succeeded
  · intro last stepped
    obtain ⟨instruction, offset, next, found, succeeded, _, rfl⟩ := executed_of_step stepped
    have framed := Instruction.frame_execute succeeded
    -- At the index that it started from, the machine is the one that was executed.
    have back : ((instruction.execute rule machine).state.atIndex next).atIndex machine.ip =
        (instruction.execute rule machine).state := by
      rw [← framed.ip]
      rfl
    refine ⟨instruction, found, by rw [succeeded]; rfl, rfl, ?_⟩
    rw [back]
    exact framed

end Mini8086
