import Mini8086.Proofs.OperandAccess

/-!
# Execution in stages

An instruction accesses its operands in a fixed order, and the first access that has a fault stops
it.  Main statement, `Instruction.execute_apply`: which stage fails is known from the instruction
alone, the accesses in front of it are counted, and an execution without a fault does what `effect`
and `distance` say.
-/

set_option autoImplicit false

namespace Mini8086

/-! ## Faults of operands -/

/-- The faults that come from the operands of the instruction at `index`. -/
inductive Fault.OfOperand (index : Nat) : Fault → Prop where
  | unresolvable (operand : Operand) : OfOperand index (.unresolvableOperand index operand)
  | missing (mnemonic : Mnemonic) : OfOperand index (.missingOperand index mnemonic)
  | memory (cause : OutOfRange) : OfOperand index (.memory index cause)

theorem MemoryOperand.ofOperand_of_fault? (place : MemoryOperand) {index : Nat} {fault : Fault}
    (failed : place.fault? index = some fault) : fault.OfOperand index := by
  unfold MemoryOperand.fault? at failed
  split at failed
  · cases failed
    exact .unresolvable _
  · split at failed
    · cases failed
    · cases failed
      exact .memory _

namespace Operand

variable (operand : Operand) {index : Nat} {fault : Fault}

theorem ofOperand_of_readFault? (failed : operand.readFault? index = some fault) :
    fault.OfOperand index := by
  cases operand with
  | register register => cases failed
  | immediate constant => cases failed
  | memory place => exact place.ofOperand_of_fault? failed
  | relative displacement =>
    cases failed
    exact .unresolvable _

theorem ofOperand_of_writeFault? (failed : operand.writeFault? index = some fault) :
    fault.OfOperand index := by
  cases operand with
  | register register => cases failed
  | memory place => exact place.ofOperand_of_fault? failed
  | immediate constant =>
    cases failed
    exact .unresolvable _
  | relative displacement =>
    cases failed
    exact .unresolvable _

end Operand

/-! ## Stages -/

inductive Stage where
  | read (operand : Operand)
  | write (operand : Operand)
  | missing (mnemonic : Mnemonic)

namespace Stage

def fault? (stage : Stage) (index : Nat) : Option Fault :=
  match stage with
  | .read operand => operand.readFault? index
  | .write operand => operand.writeFault? index
  | .missing mnemonic => some (.missingOperand index mnemonic)

def accesses : Stage → List Access
  | .read operand => operand.accesses .read
  | .write operand => operand.accesses .write
  | .missing _ => []

@[simp]
theorem fault?_read (operand : Operand) (index : Nat) :
    (read operand).fault? index = operand.readFault? index := rfl

@[simp]
theorem fault?_write (operand : Operand) (index : Nat) :
    (write operand).fault? index = operand.writeFault? index := rfl

theorem ofOperand_of_fault? {stage : Stage} {index : Nat} {fault : Fault}
    (failed : stage.fault? index = some fault) : fault.OfOperand index := by
  cases stage with
  | read operand => exact operand.ofOperand_of_readFault? failed
  | write operand => exact operand.ofOperand_of_writeFault? failed
  | missing mnemonic =>
    cases failed
    exact .missing mnemonic

def firstFault? (stages : List Stage) (index : Nat) : Option Fault :=
  stages.findSome? fun stage => stage.fault? index

def accessesBefore (stages : List Stage) (index : Nat) : List Access :=
  (stages.takeWhile fun stage => (stage.fault? index).isNone).flatMap accesses

@[simp]
theorem firstFault?_nil (index : Nat) : firstFault? [] index = none := rfl

section Cons

variable {stage : Stage} {index : Nat} (rest : List Stage)

@[simp]
theorem firstFault?_cons :
    firstFault? (stage :: rest) index = (stage.fault? index).or (firstFault? rest index) := by
  unfold firstFault?
  rw [List.findSome?_cons]
  cases stage.fault? index <;> rfl

theorem accessesBefore_cons_of_fault {fault : Fault} (failed : stage.fault? index = some fault) :
    accessesBefore (stage :: rest) index = [] := by
  simp [accessesBefore, failed]

theorem accessesBefore_cons_of_no_fault (ready : stage.fault? index = none) :
    accessesBefore (stage :: rest) index = stage.accesses ++ accessesBefore rest index := by
  simp [accessesBefore, ready]

end Cons

/-- How stages end that make `finished` of the machine when none of them fails. -/
def outcome {α : Type} (stages : List Stage) (machine finished : Machine) (value : α)
    (remarks : List ExecutionEvent) : Outcome Machine Fault ExecutionEvent α :=
  let counted := accessesBefore stages machine.ip
  match firstFault? stages machine.ip with
  | some fault => ⟨.error fault, machine.counting counted, counted.map .accessed⟩
  | none => ⟨.ok value, finished.counting counted, counted.map .accessed ++ remarks⟩

section Outcome

variable {α : Type} {stage : Stage} {machine finished : Machine} {value : α}
  {remarks : List ExecutionEvent}

theorem outcome_nil :
    outcome [] machine finished value remarks = ⟨.ok value, finished, remarks⟩ := rfl

theorem outcome_cons_of_fault {rest : List Stage} {fault : Fault}
    (failed : stage.fault? machine.ip = some fault) :
    outcome (stage :: rest) machine finished value remarks = ⟨.error fault, machine, []⟩ := by
  simp [outcome, failed, accessesBefore_cons_of_fault rest failed]

theorem outcome_cons_of_no_fault {rest : List Stage} (ready : stage.fault? machine.ip = none) :
    outcome (stage :: rest) machine finished value remarks =
      ⟨(outcome rest (machine.counting stage.accesses) (finished.counting stage.accesses) value
          remarks).result,
        (outcome rest (machine.counting stage.accesses) (finished.counting stage.accesses) value
          remarks).state,
        stage.accesses.map .accessed ++
          (outcome rest (machine.counting stage.accesses) (finished.counting stage.accesses) value
            remarks).events⟩ := by
  simp only [outcome, firstFault?_cons, ready, Option.none_or,
    accessesBefore_cons_of_no_fault rest ready, Machine.ip_counting]
  cases firstFault? rest machine.ip <;> simp [Machine.counting_append]

end Outcome

end Stage

namespace Instruction

def sourceStage (instruction : Instruction) : Stage :=
  match instruction.source with
  | some source => .read source
  | none => .missing instruction.mnemonic

end Instruction

namespace DataOperation

def stores : DataOperation → Bool
  | .mov => true
  | .arithmetic operation => operation.stores

theorem stores_iff {operation : DataOperation} :
    operation.stores = true ↔ operation ≠ .arithmetic .cmp := by
  rcases operation with _ | _ | _ | _ <;> decide

def destinationStages : DataOperation → Operand → List Stage
  | .mov, _ => []
  | .arithmetic _, destination => [.read destination]

end DataOperation

namespace Instruction

def workingWidth (instruction : Instruction) : Width :=
  instruction.destination.workingWidth

def resultStages (instruction : Instruction) (stores : Bool) : List Stage :=
  if stores then [.write instruction.destination] else []

def stages (instruction : Instruction) : List Stage :=
  match instruction.mnemonic with
  | .data operation =>
    operation.destinationStages instruction.destination ++
      instruction.sourceStage :: instruction.resultStages operation.stores
  | .branch _ => []

/-! ## Effects -/

def sourceValue (instruction : Instruction) (machine : Machine) : UInt16 :=
  (instruction.source.map machine.valueOf).getD 0

def result (instruction : Instruction) (operation : DataOperation) (machine : Machine) : UInt16 :=
  instruction.workingWidth.truncate
    (match operation with
      | .mov => instruction.sourceValue machine
      | .arithmetic operation =>
        operation.apply (machine.valueOf instruction.destination) (instruction.sourceValue machine))

/-- The machine with a result stored, if it is kept, and the flags set after it. -/
def finished (rule : SignRule) (instruction : Instruction) (stores : Bool) (result : UInt16)
    (machine : Machine) : Machine :=
  { (if stores then machine.storing instruction.destination result else machine) with
    flags := .ofResult rule result instruction.workingWidth }

/-- What an execution without a fault makes of the machine, where nothing is counted. -/
def effect (rule : SignRule) (instruction : Instruction) (machine : Machine) : Machine :=
  match instruction.mnemonic with
  | .data operation =>
    instruction.finished rule operation.stores (instruction.result operation machine) machine
  | .branch _ => machine

def distance (instruction : Instruction) (machine : Machine) : Int :=
  match instruction.mnemonic with
  | .branch .jnz =>
    if machine.flags.zero then 0 else (instruction.displacement?.map Int8.toInt).getD 0
  | _ => 0

def remark (rule : SignRule) (instruction : Instruction) (machine : Machine) : ExecutionEvent :=
  match instruction.mnemonic with
  | .data .mov =>
    .moved machine.ip instruction (instruction.result .mov machine)
      (instruction.effect rule machine).flags
  | .data (.arithmetic operation) =>
    .computed machine.ip instruction (machine.valueOf instruction.destination)
      (instruction.result (.arithmetic operation) machine) (instruction.effect rule machine).flags
  | .branch .jnz =>
    .tested machine.ip instruction machine.flags.zero (instruction.distance machine)
  | .branch jump => .skipped machine.ip jump

section Kinds

variable {instruction : Instruction}

theorem stages_of_data {operation : DataOperation}
    (named : instruction.mnemonic = .data operation) :
    instruction.stages =
      operation.destinationStages instruction.destination ++
        instruction.sourceStage :: instruction.resultStages operation.stores := by
  rw [stages, named]

theorem stages_of_branch {jump : Branch} (named : instruction.mnemonic = .branch jump) :
    instruction.stages = [] := by
  rw [stages, named]

theorem effect_of_data (rule : SignRule) {operation : DataOperation}
    (named : instruction.mnemonic = .data operation) (machine : Machine) :
    instruction.effect rule machine =
      instruction.finished rule operation.stores (instruction.result operation machine)
        machine := by
  rw [effect, named]

theorem effect_of_branch (rule : SignRule) {jump : Branch}
    (named : instruction.mnemonic = .branch jump) (machine : Machine) :
    instruction.effect rule machine = machine := by
  rw [effect, named]

end Kinds

theorem counts_effect (rule : SignRule) (instruction : Instruction) (machine : Machine) :
    (instruction.effect rule machine).memory.counts = machine.memory.counts := by
  cases named : instruction.mnemonic with
  | branch jump => rw [effect_of_branch rule named]
  | data operation =>
    rw [effect_of_data rule named, finished]
    cases operation.stores with
    | false => rfl
    | true => exact machine.counts_storing _ _

section Counting

variable (instruction : Instruction) (machine : Machine) (accesses : List Access)

@[simp]
theorem sourceValue_counting :
    instruction.sourceValue (machine.counting accesses) = instruction.sourceValue machine := by
  unfold sourceValue
  cases instruction.source <;> simp

theorem finished_counting (rule : SignRule) (stores : Bool) (result : UInt16) :
    instruction.finished rule stores result (machine.counting accesses) =
      (instruction.finished rule stores result machine).counting accesses := by
  unfold finished
  cases stores with
  | false => rfl
  | true =>
    simp only [if_true, Machine.storing_counting]
    rfl

end Counting

end Instruction

/-! ## Execution in closed form -/

namespace Execution

theorem sourceOf_apply (instruction : Instruction) (machine : Machine) :
    sourceOf instruction machine =
      match instruction.source with
      | some source => ⟨.ok source, machine, []⟩
      | none => ⟨.error (.missingOperand machine.ip instruction.mnemonic), machine, []⟩ := by
  unfold sourceOf
  cases instruction.source <;> rfl

section Sequence

variable {α : Type} {next : UInt16 → Execution α} {machine finished : Machine} {value : α}
  {remarks : List ExecutionEvent} {rest : List Stage}

theorem read_then {operand : Operand}
    (continues : next (machine.valueOf operand) (machine.counting (operand.accesses .read)) =
      Stage.outcome rest (machine.counting (operand.accesses .read))
        (finished.counting (operand.accesses .read)) value remarks) :
    (read operand >>= next) machine =
      Stage.outcome (.read operand :: rest) machine finished value remarks := by
  cases readable : (Stage.read operand).fault? machine.ip with
  | some fault =>
    rw [Transition.bind_of_error _ (read_of_fault readable), Stage.outcome_cons_of_fault readable]
  | none =>
    rw [Transition.bind_of_ok _ (read_of_no_fault readable), continues,
      Stage.outcome_cons_of_no_fault readable]
    rfl

theorem source_then {instruction : Instruction}
    (continues : next (instruction.sourceValue machine)
        (machine.counting instruction.sourceStage.accesses) =
      Stage.outcome rest (machine.counting instruction.sourceStage.accesses)
        (finished.counting instruction.sourceStage.accesses) value remarks) :
    (sourceOf instruction >>= fun source => read source >>= next) machine =
      Stage.outcome (instruction.sourceStage :: rest) machine finished value remarks := by
  cases given : instruction.source with
  | none =>
    have missing : sourceOf instruction machine =
        ⟨.error (.missingOperand machine.ip instruction.mnemonic), machine, []⟩ := by
      rw [sourceOf_apply, given]
    have failed : instruction.sourceStage.fault? machine.ip =
        some (.missingOperand machine.ip instruction.mnemonic) := by
      simp [Instruction.sourceStage, given, Stage.fault?]
    rw [Transition.bind_of_error _ missing, Stage.outcome_cons_of_fault failed]
  | some source =>
    have found : sourceOf instruction machine = ⟨.ok source, machine, []⟩ := by
      rw [sourceOf_apply, given]
    have stage : instruction.sourceStage = .read source := by
      simp [Instruction.sourceStage, given]
    have worth : instruction.sourceValue machine = machine.valueOf source := by
      simp [Instruction.sourceValue, given]
    rw [stage, worth] at continues
    rw [Transition.bind_of_ok _ found, read_then continues, stage]
    rfl

end Sequence

theorem return_after {α β : Type} {action : Execution α} {machine finished : Machine}
    {stages : List Stage} {ignored : α} {remarks : List ExecutionEvent} (value : β)
    (done : action machine = Stage.outcome stages machine finished ignored remarks) :
    (action >>= fun _ => pure value) machine =
      Stage.outcome stages machine finished value remarks := by
  rw [Transition.bind_apply, done]
  unfold Stage.outcome
  cases Stage.firstFault? stages machine.ip <;> simp [Transition.pure_apply]

def finish (rule : SignRule) (instruction : Instruction) (stores : Bool) (result : UInt16)
    (remark : Nat → Flags → ExecutionEvent) : Execution Unit := do
  if stores then
    write instruction.destination result
  let flags := Flags.ofResult rule result instruction.workingWidth
  setFlags flags
  let index ← ip
  Transition.report (remark index flags)

theorem finish_of_not_stores (rule : SignRule) (instruction : Instruction) (result : UInt16)
    (remark : Nat → Flags → ExecutionEvent) (machine : Machine) :
    finish rule instruction false result remark machine =
      ⟨.ok (), instruction.finished rule false result machine,
        [remark machine.ip (.ofResult rule result instruction.workingWidth)]⟩ := rfl

theorem finish_apply (rule : SignRule) (instruction : Instruction) (stores : Bool)
    (result : UInt16) (remark : Nat → Flags → ExecutionEvent) (machine : Machine) :
    finish rule instruction stores result remark machine =
      Stage.outcome (instruction.resultStages stores) machine
        (instruction.finished rule stores result machine) ()
        [remark machine.ip (.ofResult rule result instruction.workingWidth)] := by
  cases stores with
  | false => rfl
  | true =>
    have unfolded : finish rule instruction true result remark =
        (do
          write instruction.destination result
          finish rule instruction false result remark) := rfl
    rw [unfolded, Instruction.resultStages, if_pos rfl]
    cases writable : (Stage.write instruction.destination).fault? machine.ip with
    | some fault =>
      rw [Transition.bind_of_error _ (write_of_fault result writable),
        Stage.outcome_cons_of_fault writable]
    | none =>
      rw [Transition.bind_of_ok _ (write_of_no_fault result writable),
        Stage.outcome_cons_of_no_fault writable, finish_of_not_stores, Machine.ip_counting,
        Machine.ip_storing]
      rfl

theorem move_apply (rule : SignRule) (instruction : Instruction) (machine : Machine)
    (moves : instruction.mnemonic = .data .mov) :
    move rule instruction machine =
      Stage.outcome instruction.stages machine (instruction.effect rule machine) ()
        [instruction.remark rule machine] := by
  have staged : move rule instruction =
      (do
        let source ← sourceOf instruction
        let value ← read source
        let result := instruction.workingWidth.truncate value
        finish rule instruction true result (.moved · instruction result ·)) := rfl
  have remark : instruction.remark rule machine =
      .moved machine.ip instruction (instruction.result .mov machine)
        (instruction.effect rule machine).flags := by
    rw [Instruction.remark, moves]
  rw [staged, Instruction.stages_of_data moves, remark, Instruction.effect_of_data rule moves]
  apply source_then
  rw [finish_apply, Instruction.finished_counting]
  rfl

theorem compute_apply (rule : SignRule) (operation : Arithmetic) (instruction : Instruction)
    (machine : Machine) (computes : instruction.mnemonic = .data (.arithmetic operation)) :
    compute rule operation instruction machine =
      Stage.outcome instruction.stages machine (instruction.effect rule machine) ()
        [instruction.remark rule machine] := by
  have staged : compute rule operation instruction =
      (do
        let before ← read instruction.destination
        let source ← sourceOf instruction
        let value ← read source
        let result := instruction.workingWidth.truncate (operation.apply before value)
        finish rule instruction operation.stores result
          (.computed · instruction before result ·)) :=
    rfl
  have remark : instruction.remark rule machine =
      .computed machine.ip instruction (machine.valueOf instruction.destination)
        (instruction.result (.arithmetic operation) machine)
        (instruction.effect rule machine).flags := by
    rw [Instruction.remark, computes]
  rw [staged, Instruction.stages_of_data computes, remark,
    Instruction.effect_of_data rule computes]
  apply read_then
  apply source_then
  rw [finish_apply, Instruction.finished_counting, Instruction.finished_counting,
    Instruction.sourceValue_counting]
  rfl

end Execution

namespace Instruction

/-- An instruction fails with the fault of its first faulty stage, or takes effect. -/
theorem execute_apply (rule : SignRule) (instruction : Instruction) (machine : Machine) :
    instruction.execute rule machine =
      Stage.outcome instruction.stages machine (instruction.effect rule machine)
        (instruction.distance machine) [instruction.remark rule machine] := by
  cases named : instruction.mnemonic with
  | data operation =>
    have still : instruction.distance machine = 0 := by
      rw [distance, named]
    rw [still]
    cases operation with
    | mov =>
      have staged : instruction.execute rule =
          (do Execution.move rule instruction; return 0) := by
        rw [execute, named]
      rw [staged]
      exact Execution.return_after 0 (Execution.move_apply rule instruction machine named)
    | arithmetic operation =>
      have staged : instruction.execute rule =
          (do Execution.compute rule operation instruction; return 0) := by
        rw [execute, named]
      rw [staged]
      exact Execution.return_after 0
        (Execution.compute_apply rule operation instruction machine named)
  | branch jump =>
    rw [stages_of_branch named, effect_of_branch rule named, Stage.outcome_nil, execute, distance,
      remark, distance, named]
    cases jump <;> rfl

def fault? (instruction : Instruction) (index : Nat) : Option Fault :=
  Stage.firstFault? instruction.stages index

def accesses (instruction : Instruction) (index : Nat) : List Access :=
  Stage.accessesBefore instruction.stages index

theorem fault?_of_branch {instruction : Instruction} {jump : Branch}
    (named : instruction.mnemonic = .branch jump) (index : Nat) :
    instruction.fault? index = none := by
  rw [fault?, stages_of_branch named, Stage.firstFault?_nil]

theorem writable_of_stores {instruction : Instruction} {operation : DataOperation} {index : Nat}
    (named : instruction.mnemonic = .data operation) (stores : operation.stores = true)
    (fine : instruction.fault? index = none) :
    instruction.destination.writeFault? index = none := by
  have listed : Stage.write instruction.destination ∈ instruction.stages := by
    rw [stages_of_data named, resultStages, if_pos stores]
    simp
  exact List.findSome?_eq_none_iff.mp fine _ listed

section Outcomes

variable (rule : SignRule) {instruction : Instruction} {machine : Machine}

theorem execute_of_fault {fault : Fault} (failed : instruction.fault? machine.ip = some fault) :
    instruction.execute rule machine =
      ⟨.error fault, machine.counting (instruction.accesses machine.ip),
        (instruction.accesses machine.ip).map .accessed⟩ := by
  rw [execute_apply, Stage.outcome, ← fault?, failed]
  rfl

theorem execute_of_no_fault (fine : instruction.fault? machine.ip = none) :
    instruction.execute rule machine =
      ⟨.ok (instruction.distance machine),
        (instruction.effect rule machine).counting (instruction.accesses machine.ip),
        (instruction.accesses machine.ip).map .accessed ++ [instruction.remark rule machine]⟩ := by
  rw [execute_apply, Stage.outcome, ← fault?, fine]
  rfl

theorem result_execute_eq_error_iff {fault : Fault} :
    (instruction.execute rule machine).result = .error fault ↔
      instruction.fault? machine.ip = some fault := by
  cases found : instruction.fault? machine.ip with
  | some first => simp [execute_of_fault rule found]
  | none => simp [execute_of_no_fault rule found]

theorem result_execute_eq_ok_iff {distance : Int} :
    (instruction.execute rule machine).result = .ok distance ↔
      instruction.fault? machine.ip = none ∧ instruction.distance machine = distance := by
  cases found : instruction.fault? machine.ip with
  | some first => simp [execute_of_fault rule found]
  | none => simp [execute_of_no_fault rule found]

theorem ofOperand_of_execute {fault : Fault}
    (failed : (instruction.execute rule machine).result = .error fault) :
    fault.OfOperand machine.ip := by
  rw [result_execute_eq_error_iff] at failed
  obtain ⟨stage, _, found⟩ := List.exists_of_findSome?_eq_some failed
  exact Stage.ofOperand_of_fault? found

end Outcomes

section Jump

variable {instruction : Instruction} {machine : Machine}

theorem distance_of_taken {displacement : Int8} (named : instruction.mnemonic = .branch .jnz)
    (taken : machine.flags.zero = false) (away : instruction.destination = .relative displacement) :
    instruction.distance machine = displacement.toInt := by
  simp [distance, named, taken, displacement?, away]

theorem taken_of_distance (moves : instruction.distance machine ≠ 0) :
    instruction.mnemonic = .branch .jnz ∧ machine.flags.zero = false ∧
      ∃ displacement, instruction.destination = .relative displacement ∧ displacement ≠ 0 := by
  unfold distance at moves
  split at moves
  · next named =>
    cases zero : machine.flags.zero with
    | true => simp [zero] at moves
    | false =>
      cases away : instruction.destination with
      | relative displacement =>
        refine ⟨named, rfl, displacement, rfl, ?_⟩
        intro still
        subst still
        simp [zero, displacement?, away] at moves
      | register register => simp [zero, displacement?, away] at moves
      | memory place => simp [zero, displacement?, away] at moves
      | immediate constant => simp [zero, displacement?, away] at moves
  · exact absurd rfl moves

end Jump

end Instruction

end Mini8086
