import Mini8086.Proofs.Image
import Mini8086.Proofs.Steps
import Mini8086.Proofs.WellFormed

/-!
# Faults of decoded programs

Which instructions of a decoded program fail can be seen from the program: those with an operand
that depends on registers, and those with a word at the last address.  Apart from these, a run
fails only at a jump without a target or because of its limits.
-/

set_option autoImplicit false

namespace Mini8086

/-! ## Faulty operands -/

/-- The operands that cannot be accessed, with the fault that an access of them is. -/
inductive Operand.Faulty (index : Nat) : Operand → Fault → Prop where
  | registerBased (base : Base) (displacement : Int16) (width : Width) :
    Faulty index (.memory ⟨.based base, displacement, width⟩)
      (.unresolvableOperand index (.memory ⟨.based base, displacement, width⟩))
  | endOfMemory :
    Faulty index (.memory ⟨.direct 0xFFFF, 0, .word⟩) (.memory index ⟨0xFFFF, 2⟩)

@[simp]
theorem Operand.not_faulty_register (index : Nat) (register : Register) (fault : Fault) :
    ¬ Operand.Faulty index (.register register) fault := by
  intro faulty
  cases faulty

@[simp]
theorem Operand.not_faulty_immediate (index : Nat) (constant : Immediate) (fault : Fault) :
    ¬ Operand.Faulty index (.immediate constant) fault := by
  intro faulty
  cases faulty

namespace Instruction

def operands (instruction : Instruction) : List Operand :=
  instruction.destination :: instruction.source.toList

def Faulty (instruction : Instruction) (index : Nat) (fault : Fault) : Prop :=
  (∃ operation, instruction.mnemonic = .data operation) ∧
    ∃ operand ∈ instruction.operands, operand.Faulty index fault

end Instruction

theorem MemoryOperand.absolute?_direct (address : UInt16) (width : Width) :
    MemoryOperand.absolute? ⟨.direct address, 0, width⟩ = some address := by
  have nothing : (0 : Int16).toUInt16 = 0 := rfl
  simp [MemoryOperand.absolute?, nothing]

theorem Operand.direct_readFault? (address : UInt16) (width : Width) (index : Nat) :
    (Operand.memory ⟨.direct address, 0, width⟩).readFault? index =
      if address.toNat + width.bytes ≤ memorySize then none
      else some (.memory index ⟨address.toNat, width.bytes⟩) := by
  rw [Operand.readFault?, MemoryOperand.fault?, MemoryOperand.absolute?_direct]

/-- Only a word at the last address reaches past the end of memory. -/
theorem beyond_memory {address : UInt16} {width : Width}
    (beyond : ¬ address.toNat + width.bytes ≤ memorySize) : address = 0xFFFF ∧ width = .word := by
  have small := address.toNat_lt
  unfold memorySize at beyond
  cases width with
  | byte =>
    simp only [Width.bytes] at beyond
    omega
  | word =>
    simp only [Width.bytes] at beyond
    refine ⟨?_, rfl⟩
    apply UInt16.toNat_inj.mp
    have last : (0xFFFF : UInt16).toNat = 65535 := rfl
    omega

namespace Operand.Located

variable {operand : Operand} {width : Width} (located : operand.Located width) (index : Nat)

include located

theorem writeFault?_eq : operand.writeFault? index = operand.readFault? index := by
  cases located <;> rfl

theorem readFault?_eq_some_iff {fault : Fault} :
    operand.readFault? index = some fault ↔ operand.Faulty index fault := by
  cases located with
  | register register =>
    constructor
    · intro failed
      cases failed
    · intro faulty
      cases faulty
  | based base displacement width =>
    constructor
    · intro failed
      cases failed
      exact .registerBased base displacement width
    · intro faulty
      cases faulty
      rfl
  | direct address width =>
    rw [direct_readFault?]
    constructor
    · intro failed
      split at failed
      · cases failed
      · next beyond =>
        cases failed
        obtain ⟨rfl, rfl⟩ := beyond_memory beyond
        exact .endOfMemory
    · intro faulty
      cases faulty
      rfl

end Operand.Located

/-! ## Faulty instructions -/

namespace Instruction

section DataOperation

variable (operation : DataOperation) {destination source : Operand} (length index : Nat)

theorem fault?_to_register (register : Register) :
    fault? ⟨.data operation, .register register, some source, length⟩ index =
      source.readFault? index := by
  rcases operation with _ | _ | _ | _ <;>
    simp [fault?, stages, DataOperation.destinationStages, sourceStage, resultStages,
      DataOperation.stores, Arithmetic.stores]

theorem fault?_to_located {width : Width} (located : destination.Located width)
    (readable : source.readFault? index = none) :
    fault? ⟨.data operation, destination, some source, length⟩ index =
      destination.readFault? index := by
  have writes := located.writeFault?_eq index
  rcases operation with _ | _ | _ | _ <;>
    simp [fault?, stages, DataOperation.destinationStages, sourceStage, resultStages,
      DataOperation.stores, Arithmetic.stores, readable, writes]

end DataOperation

theorem faulty_operand_iff {operation : DataOperation} {destination source : Operand}
    {length index : Nat} {fault : Fault} :
    Faulty ⟨.data operation, destination, some source, length⟩ index fault ↔
      destination.Faulty index fault ∨ source.Faulty index fault := by
  simp [Faulty, operands]

theorem WellFormed.fault?_eq_some_iff {instruction : Instruction}
    (wellFormed : instruction.WellFormed) {index : Nat} {fault : Fault} :
    instruction.fault? index = some fault ↔ instruction.Faulty index fault := by
  -- One operand of the two is a register or a constant, so the order of the stages does not show.
  cases wellFormed with
  | branch jump displacement length =>
    constructor
    · intro failed
      cases failed
    · intro faulty
      obtain ⟨⟨operation, named⟩, _⟩ := faulty
      cases named
  | toRegister operation register length located =>
    rw [fault?_to_register, located.readFault?_eq_some_iff, faulty_operand_iff]
    simp
  | fromRegister operation register length located =>
    rw [fault?_to_located operation length index located (by simp),
      located.readFault?_eq_some_iff, faulty_operand_iff]
    simp
  | constant operation length located fits =>
    rw [fault?_to_located operation length index located (by simp),
      located.readFault?_eq_some_iff, faulty_operand_iff]
    simp

end Instruction

/-! ## Faults of a step -/

inductive StepFault (program : Program) (machine : Machine) : Fault → Prop where
  | operand {instruction : Instruction} {fault : Fault}
      (found : program[machine.ip]? = some instruction)
      (faulty : instruction.Faulty machine.ip fault) :
      StepFault program machine fault
  | jump {instruction : Instruction} {displacement : Int8} {cause : JumpError}
      (found : program[machine.ip]? = some instruction)
      (named : instruction.mnemonic = .branch .jnz) (taken : machine.flags.zero = false)
      (away : instruction.destination = .relative displacement) (moves : displacement ≠ 0)
      (lost : resolveJump Instruction.length program machine.ip displacement.toInt =
        .error cause) :
      StepFault program machine (.invalidJumpTarget machine.ip cause)

/-- Why a run fails: there is nothing to execute, or it comes to a step that fails, or it uses up
its limit. -/
inductive RunFault (settings : RunSettings) (program : Program) (machine : Machine) :
    Fault → Prop where
  | start (beyond : program.size < machine.ip) :
    RunFault settings program machine
      (.invalidJumpTarget machine.ip (.outOfRange machine.ip 0))
  | step {count : Nat} {middle : Machine} {fault : Fault} (start : machine.ip ≤ program.size)
      (few : count < settings.stepLimit)
      (reached : ((Execution.step settings.signRule program).times count).LeadsTo machine middle)
      (stopped : StepFault program middle fault) :
      RunFault settings program machine fault
  | limit {middle : Machine} (start : machine.ip ≤ program.size)
      (reached : ((Execution.step settings.signRule program).times settings.stepLimit).LeadsTo
        machine middle)
      (inside : middle.ip < program.size) :
      RunFault settings program machine (.stepLimitExceeded middle.ip settings.stepLimit)

theorem StepFault.ip_lt_size {program : Program} {machine : Machine} {fault : Fault}
    (stopped : StepFault program machine fault) : machine.ip < program.size := by
  cases stopped with
  | operand found faulty => exact (Array.getElem?_eq_some_iff.mp found).1
  | jump found named taken away moves lost => exact (Array.getElem?_eq_some_iff.mp found).1

namespace Program

def Accessible (program : Program) : Prop :=
  ∀ (index : Nat) (instruction : Instruction), program[index]? = some instruction →
    ∀ fault, ¬ instruction.Faulty index fault

def JumpsResolve (program : Program) : Prop :=
  ∀ (index : Nat) (instruction : Instruction) (displacement : Int8),
    program[index]? = some instruction → instruction.mnemonic = .branch .jnz →
      instruction.destination = .relative displacement →
        ∃ target, resolveJump Instruction.length program index displacement.toInt = .ok target

section Decoded

variable {signExtend : Bool} {image : List UInt8} {program : Program}
  (decoded : decode signExtend image = .ok program)

include decoded

theorem wellFormed_of_decoded {index : Nat} {instruction : Instruction}
    (found : program[index]? = some instruction) : instruction.WellFormed := by
  obtain ⟨encoding, rfl⟩ := exists_encoding_of_decoded decoded found
  exact encoding.wellFormed signExtend

theorem execute_fails_iff {index : Nat} {instruction : Instruction}
    (found : program[index]? = some instruction) {rule : SignRule} {machine : Machine}
    {fault : Fault} :
    (instruction.execute rule machine).result = .error fault ↔
      instruction.Faulty machine.ip fault := by
  rw [Instruction.result_execute_eq_error_iff,
    (wellFormed_of_decoded decoded found).fault?_eq_some_iff]

theorem step_fails_iff {rule : SignRule} {machine : Machine} (inside : machine.ip < program.size)
    {fault : Fault} :
    (Execution.step rule program machine).result = .error fault ↔
      StepFault program machine fault := by
  have found : program[machine.ip]? = some program[machine.ip] := Array.getElem?_eq_getElem inside
  rw [Execution.result_step_eq_error_iff found, execute_fails_iff decoded found]
  constructor
  · intro failed
    rcases failed with faulty | ⟨offset, executed, failed⟩
    · exact .operand found faulty
    · obtain ⟨_, rfl⟩ := (Instruction.result_execute_eq_ok_iff rule).mp executed
      obtain ⟨moves, cause, lost, rfl⟩ := Execution.target_fails_iff.mp failed
      obtain ⟨named, taken, displacement, away, leaves⟩ := Instruction.taken_of_distance moves
      rw [Instruction.distance_of_taken named taken away] at lost
      exact .jump found named taken away leaves lost
  · intro stopped
    cases stopped with
    | operand again faulty =>
      rw [found] at again
      cases again
      exact .inl faulty
    | @jump instruction displacement cause again named taken away leaves lost =>
      rw [found] at again
      cases again
      have distance := Instruction.distance_of_taken named taken away
      have moves : displacement.toInt ≠ 0 := by
        intro still
        exact leaves (Int8.toInt_inj.mp still)
      have executed := (Instruction.result_execute_eq_ok_iff rule).mpr
        ⟨Instruction.fault?_of_branch named machine.ip, distance⟩
      exact .inr ⟨displacement.toInt, executed,
        Execution.target_fails_iff.mpr ⟨moves, cause, lost, rfl⟩⟩

theorem run_fails_iff {settings : RunSettings} {keep : ExecutionEvent → Bool} {machine : Machine}
    {fault : Fault} :
    (Execution.run settings program keep machine).result = .error fault ↔
      RunFault settings program machine fault := by
  rcases Nat.lt_or_ge program.size machine.ip with beyond | start
  · rw [Execution.run_of_beyond beyond]
    constructor
    · intro failed
      cases failed
      exact .start beyond
    · intro stopped
      cases stopped with
      | start => rfl
      | step start => omega
      | limit start => omega
  · rw [Execution.result_run_eq_error_iff start]
    constructor
    · intro failed
      rcases failed with
        ⟨count, few, middle, reached, inside, stopped⟩ | ⟨middle, reached, inside, rfl⟩
      · exact .step start few reached ((step_fails_iff decoded inside).mp stopped)
      · exact .limit start reached inside
    · intro failed
      cases failed with
      | start beyond => omega
      | step start few reached stopped =>
        have inside := stopped.ip_lt_size
        exact .inl ⟨_, few, _, reached, inside, (step_fails_iff decoded inside).mpr stopped⟩
      | limit start reached inside => exact .inr ⟨_, reached, inside, rfl⟩

theorem run_safe (accessible : program.Accessible) (resolves : program.JumpsResolve)
    {settings : RunSettings} {keep : ExecutionEvent → Bool} {machine : Machine}
    (start : machine.ip ≤ program.size) :
    (∃ last, (Execution.run settings program keep).LeadsTo machine last) ∨
      ∃ index, (Execution.run settings program keep machine).result =
        .error (.stepLimitExceeded index settings.stepLimit) := by
  rcases Transition.result_eq_ok_or_error (Execution.run settings program keep) machine with
    halted | ⟨fault, failed⟩
  · exact .inl halted
  · have reason := (run_fails_iff decoded).mp failed
    cases reason with
    | start beyond => omega
    | limit start reached inside => exact .inr ⟨_, failed⟩
    | step start few reached stopped =>
      cases stopped with
      | operand found faulty => exact absurd faulty (accessible _ _ found _)
      | jump found named taken away leaves lost =>
        obtain ⟨target, resolved⟩ := resolves _ _ _ found named away
        rw [resolved] at lost
        cases lost

end Decoded

/-- Every way in which a decoded program can fail. -/
structure FaultAnalysis (program : Program) : Prop where
  execute_fails : ∀ (index : Nat) (instruction : Instruction),
    program[index]? = some instruction → ∀ (rule : SignRule) (machine : Machine) (fault : Fault),
      ((instruction.execute rule machine).result = .error fault ↔
        instruction.Faulty machine.ip fault)
  run_fails : ∀ (settings : RunSettings) (keep : ExecutionEvent → Bool) (machine : Machine)
    (fault : Fault),
      (Execution.run settings program keep machine).result = .error fault ↔
        RunFault settings program machine fault
  never_missing : ∀ (settings : RunSettings) (keep : ExecutionEvent → Bool) (machine : Machine)
    (index : Nat) (mnemonic : Mnemonic),
      (Execution.run settings program keep machine).result ≠ .error (.missingOperand index mnemonic)
  safe : program.Accessible → program.JumpsResolve →
    ∀ (settings : RunSettings) (keep : ExecutionEvent → Bool) (machine : Machine),
      machine.ip ≤ program.size →
        (∃ last, (Execution.run settings program keep).LeadsTo machine last) ∨
          ∃ index, (Execution.run settings program keep machine).result =
            .error (.stepLimitExceeded index settings.stepLimit)

theorem faultAnalysis {signExtend : Bool} {image : List UInt8} {program : Program}
    (decoded : decode signExtend image = .ok program) : FaultAnalysis program where
  execute_fails := by
    intro index instruction found rule machine fault
    exact execute_fails_iff decoded found
  run_fails := by
    intro settings keep machine fault
    exact run_fails_iff decoded
  never_missing := by
    intro settings keep machine index mnemonic failed
    have reason := (run_fails_iff decoded).mp failed
    cases reason with
    | step start few reached stopped =>
      cases stopped with
      | operand found faulty =>
        obtain ⟨_, operand, _, faulty⟩ := faulty
        cases faulty
  safe := by
    intro accessible resolves settings keep machine start
    exact run_safe decoded accessible resolves start

/-- The image of `mov ax, [bx]`, which fails everywhere, and that of `sub cx, 1` and a `jnz` back to
it, which does not fail. -/
theorem faultAnalysis_of_images :
    (∃ program : Program, decode false [0x8B, 0x07] = .ok program ∧ ¬ program.Accessible ∧
        FaultAnalysis program) ∧
      ∃ program : Program, decode false [0x83, 0xE9, 0x01, 0x75, 0xFB] = .ok program ∧
        program.Accessible ∧ program.JumpsResolve ∧ FaultAnalysis program := by
  have failing : decode false [0x8B, 0x07] =
      .ok (([.registerMemory .mov true .word 0 (.plain .bx (by decide))] : List Encoding).map
        (Encoding.instruction false)).toArray :=
    decode_eq_ok_iff.mpr ⟨_, by decide, rfl⟩
  have counting : decode false [0x83, 0xE9, 0x01, 0x75, 0xFB] =
      .ok (([.arithmeticImmediate .sub (.register 1) (.short 1), .branch .jnz (-5)] :
        List Encoding).map (Encoding.instruction false)).toArray :=
    decode_eq_ok_iff.mpr ⟨_, by decide, rfl⟩
  refine ⟨⟨_, failing, ?_, faultAnalysis failing⟩, _, counting, ?_, ?_, faultAnalysis counting⟩
  · intro accessible
    exact accessible 0 _ rfl _ ⟨⟨.mov, rfl⟩, _, by decide, .registerBased .bx 0 .word⟩
  · intro index instruction found fault faulty
    obtain ⟨⟨operation, named⟩, operand, listed, faulty⟩ := faulty
    match index, found with
    | 0, found =>
      cases found
      rcases List.mem_cons.mp listed with rfl | constant
      · exact Operand.not_faulty_register _ _ _ faulty
      · rw [List.mem_singleton.mp constant] at faulty
        exact Operand.not_faulty_immediate _ _ _ faulty
    | 1, found =>
      cases found
      cases named
    | index + 2, found => cases found
  · intro index instruction displacement found named away
    match index, found with
    | 0, found =>
      cases found
      cases named
    | 1, found =>
      cases found
      cases away
      exact ⟨0, by decide⟩
    | index + 2, found => cases found

end Program

end Mini8086
