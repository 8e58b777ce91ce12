import Mini8086.Proofs.Steps

/-!
# Failures leave no trace

An instruction reads its operands before it writes anything, and what it writes is the last thing
that can fail.  Main statement, `Execution.errors_atomic`: after an error of an execution or a step
only the reads that came before it have been counted, and the machine is otherwise as it was.
-/

set_option autoImplicit false

namespace Mini8086

/-! ## Counting reads -/

def Access.length : Access → Nat
  | .read _ length | .write _ length => length

/-- `after` is `before` with some reads counted, and nothing else is different. -/
structure Machine.DiffersByReads (before after : Machine) (counted : List Access) : Prop where
  registers : after.registers = before.registers
  flags : after.flags = before.flags
  contents : after.memory.cells = before.memory.cells
  ip : after.ip = before.ip
  writes : after.memory.counts.writes = before.memory.counts.writes
  bytesWritten : after.memory.counts.bytesWritten = before.memory.counts.bytesWritten
  reads : after.memory.counts.reads = before.memory.counts.reads + counted.length
  bytesRead : after.memory.counts.bytesRead =
    before.memory.counts.bytesRead + (counted.map Access.length).sum

theorem Machine.DiffersByReads.refl (machine : Machine) : machine.DiffersByReads machine [] :=
  ⟨rfl, rfl, rfl, rfl, rfl, rfl, rfl, rfl⟩

def Access.IsRead (access : Access) : Prop :=
  ∃ address length, access = .read address length

theorem Operand.isRead_of_mem_accesses {operand : Operand} {access : Access}
    (listed : access ∈ operand.accesses .read) : access.IsRead := by
  cases operand with
  | memory place =>
    obtain ⟨address, _, rfl⟩ := Option.map_eq_some_iff.mp (Option.mem_toList.mp listed)
    exact ⟨address.toNat, place.width.bytes, rfl⟩
  | register named => cases listed
  | immediate constant => cases listed
  | relative displacement => cases listed

theorem Machine.differsByReads_counting {machine : Machine} {reads : List Access}
    (only : ∀ access ∈ reads, access.IsRead) :
    machine.DiffersByReads (machine.counting reads) reads := by
  induction reads generalizing machine with
  | nil => exact .refl machine
  | cons access others ih =>
    obtain ⟨address, length, rfl⟩ := only access List.mem_cons_self
    have behind : (machine.counting [.read address length]).DiffersByReads
        ((machine.counting [.read address length]).counting others) others :=
      ih fun other member => only other (List.mem_cons_of_mem _ member)
    rw [← machine.counting_append] at behind
    refine ⟨rfl, rfl, rfl, rfl, behind.writes, behind.bytesWritten, ?_, ?_⟩
    · have count := behind.reads
      simp only [Machine.counting, List.foldl_cons, List.foldl_nil, AccessCounts.add] at count
      rw [List.length_cons]
      exact count.trans (by omega)
    · have count := behind.bytesRead
      simp only [Machine.counting, List.foldl_cons, List.foldl_nil, AccessCounts.add] at count
      rw [List.map_cons, List.sum_cons, Access.length]
      exact count.trans (by omega)

/-! ## The reads of an instruction -/

theorem Execution.isOk_read (operand : Operand) (machine : Machine) :
    (Execution.read operand machine).result.isOk = (operand.readFault? machine.ip).isNone := by
  rw [Execution.read_apply]
  cases operand.readFault? machine.ip <;> rfl

namespace Instruction

/-- The operands that the instruction reads if nothing stops it, in their order. -/
def readOrder (instruction : Instruction) : List Operand :=
  match instruction.mnemonic with
  | .data .mov => instruction.source.toList
  | .data (.arithmetic _) => instruction.destination :: instruction.source.toList
  | .branch _ => []

/-- The reads from memory that succeed before an operand comes that cannot be read. -/
def reads (instruction : Instruction) (machine : Machine) : List Access :=
  (instruction.readOrder.takeWhile fun operand =>
    (Execution.read operand machine).result.isOk).flatMap (Operand.accesses .read)

theorem isRead_of_mem_reads {instruction : Instruction} {machine : Machine} {access : Access}
    (listed : access ∈ instruction.reads machine) : access.IsRead := by
  obtain ⟨operand, _, asked⟩ := List.mem_flatMap.mp listed
  exact Operand.isRead_of_mem_accesses asked

theorem reads_of_branch {instruction : Instruction} {jump : Branch}
    (named : instruction.mnemonic = .branch jump) (machine : Machine) :
    instruction.reads machine = [] := by
  rw [reads, readOrder, named]
  rfl

/-- What follows the reads: a source that is missing, and the write of the result. -/
def closing (instruction : Instruction) : List Stage :=
  match instruction.mnemonic with
  | .data operation =>
    match instruction.source with
    | some _ => instruction.resultStages operation.stores
    | none => .missing instruction.mnemonic :: instruction.resultStages operation.stores
  | .branch _ => []

theorem stages_eq_reads_append (instruction : Instruction) :
    instruction.stages = instruction.readOrder.map .read ++ instruction.closing := by
  unfold stages readOrder closing sourceStage
  rcases instruction.mnemonic with (_ | operation) | jump
  · cases instruction.source <;> rfl
  · cases instruction.source <;> rfl
  · rfl

theorem accessesBefore_closing {instruction : Instruction} {index : Nat} {fault : Fault}
    (failed : Stage.firstFault? instruction.closing index = some fault) :
    Stage.accessesBefore instruction.closing index = [] := by
  obtain ⟨mnemonic, destination, source, length⟩ := instruction
  cases mnemonic with
  | branch jump => rfl
  | data operation =>
    cases source with
    | none => exact Stage.accessesBefore_cons_of_fault _ rfl
    | some source =>
      unfold closing resultStages at failed ⊢
      cases stores : operation.stores with
      | false =>
        simp only [stores]
        rfl
      | true =>
        simp only [stores, if_true, Stage.firstFault?_cons, Stage.firstFault?_nil,
          Option.or_none] at failed ⊢
        exact Stage.accessesBefore_cons_of_fault _ failed

end Instruction

theorem Stage.accessesBefore_reads_append {operands : List Operand} {rest : List Stage}
    {index : Nat} {fault : Fault}
    (closes : ∀ fault, firstFault? rest index = some fault → accessesBefore rest index = [])
    (failed : firstFault? (operands.map .read ++ rest) index = some fault) :
    accessesBefore (operands.map .read ++ rest) index =
      (operands.takeWhile fun operand => (operand.readFault? index).isNone).flatMap
        (Operand.accesses .read) := by
  induction operands with
  | nil => exact closes fault failed
  | cons operand others ih =>
    rw [List.map_cons, List.cons_append] at failed ⊢
    rw [List.takeWhile_cons]
    cases readable : operand.readFault? index with
    | some first =>
      have stopped : (read operand).fault? index = some first := readable
      rw [accessesBefore_cons_of_fault _ stopped]
      rfl
    | none =>
      have ready : (read operand).fault? index = none := readable
      rw [firstFault?_cons, ready, Option.none_or] at failed
      rw [accessesBefore_cons_of_no_fault _ ready, ih failed]
      rfl

/-- The accesses of an instruction that fails are the reads in front of its fault. -/
theorem Instruction.accesses_of_fault {instruction : Instruction} {machine : Machine}
    {fault : Fault} (failed : instruction.fault? machine.ip = some fault) :
    instruction.accesses machine.ip = instruction.reads machine := by
  unfold fault? at failed
  unfold accesses reads
  rw [stages_eq_reads_append] at failed ⊢
  simp only [Execution.isOk_read]
  exact Stage.accessesBefore_reads_append (fun _ => accessesBefore_closing) failed

/-! ## Errors -/

namespace Execution

theorem differsByReads_of_execute {rule : SignRule} {instruction : Instruction} {machine : Machine}
    {fault : Fault} (failed : (instruction.execute rule machine).result = .error fault) :
    machine.DiffersByReads (instruction.execute rule machine).state
      (instruction.reads machine) := by
  have known := (Instruction.result_execute_eq_error_iff rule).mp failed
  rw [Instruction.execute_of_fault rule known, Instruction.accesses_of_fault known]
  exact Machine.differsByReads_counting fun _ => Instruction.isRead_of_mem_reads

theorem state_execute_of_branch (rule : SignRule) {instruction : Instruction} {jump : Branch}
    (named : instruction.mnemonic = .branch jump) (machine : Machine) :
    (instruction.execute rule machine).state = machine := by
  have fine := Instruction.fault?_of_branch named machine.ip
  have nothing : instruction.accesses machine.ip = [] := by
    rw [Instruction.accesses, Instruction.stages_of_branch named]
    rfl
  rw [Instruction.execute_of_no_fault rule fine, nothing, Instruction.effect_of_branch rule named]
  rfl

theorem state_step_of_error {rule : SignRule} {program : Program} {machine : Machine}
    {instruction : Instruction} {fault : Fault}
    (found : program[machine.ip]? = some instruction)
    (failed : (step rule program machine).result = .error fault) :
    (step rule program machine).state = (instruction.execute rule machine).state := by
  rw [step_of_some found] at failed ⊢
  generalize instruction.execute rule machine = executed at failed ⊢
  obtain ⟨_ | offset, state, events⟩ := executed
  · rfl
  · cases aimed : target program machine.ip offset with
    | error fault => simp only [aimed]
    | ok next =>
      simp only [aimed] at failed
      cases failed

theorem differsByReads_of_step {rule : SignRule} {program : Program} {machine : Machine}
    {fault : Fault} (failed : (step rule program machine).result = .error fault) :
    machine.DiffersByReads (step rule program machine).state
      ((program[machine.ip]?.map fun instruction => instruction.reads machine).getD []) := by
  cases found : program[machine.ip]? with
  | none =>
    rw [step_of_none found]
    exact .refl machine
  | some instruction =>
    rw [state_step_of_error found failed, Option.map_some, Option.getD_some]
    rcases (result_step_eq_error_iff found).mp failed with stopped | ⟨offset, executed, lost⟩
    · exact differsByReads_of_execute stopped
    · obtain ⟨_, rfl⟩ := (Instruction.result_execute_eq_ok_iff rule).mp executed
      obtain ⟨moves, _⟩ := target_fails_iff.mp lost
      have named := (Instruction.taken_of_distance moves).1
      rw [state_execute_of_branch rule named, Instruction.reads_of_branch named]
      exact .refl machine

theorem errors_atomic (rule : SignRule) (program : Program) (instruction : Instruction)
    (machine : Machine) :
    (∀ fault, (instruction.execute rule machine).result = .error fault →
        machine.DiffersByReads (instruction.execute rule machine).state
          (instruction.reads machine)) ∧
      (∀ fault, (step rule program machine).result = .error fault →
        machine.DiffersByReads (step rule program machine).state
          ((program[machine.ip]?.map fun instruction => instruction.reads machine).getD [])) ∧
      (instruction.execute rule machine).state.ip = machine.ip := by
  refine ⟨?_, ?_, instruction.ip_execute rule machine⟩
  · intro fault failed
    exact differsByReads_of_execute failed
  · intro fault failed
    exact differsByReads_of_step failed

end Execution
end Mini8086
