import Mini8086.Proofs.Lockstep
import Mini8086.Proofs.MemoryRequests

/-!
# Counters are never looked at

Two machines are the same when they agree on registers, flags, memory contents and index, however
often their memories were accessed.  Main statement, `Machine.counters_unobserved`: whatever is done
to two such machines has the same result on both, leaves them the same, and adds the same to the
counters of both.
-/

set_option autoImplicit false

namespace Mini8086

/-! ## Growth of counters -/

namespace AccessCounts

def plus (counts growth : AccessCounts) : AccessCounts where
  bytesRead := counts.bytesRead + growth.bytesRead
  bytesWritten := counts.bytesWritten + growth.bytesWritten
  reads := counts.reads + growth.reads
  writes := counts.writes + growth.writes

variable (counts growth : AccessCounts)

theorem plus_zero : counts.plus {} = counts := rfl

theorem add_plus (access : Access) :
    (counts.plus growth).add access = counts.plus (growth.add access) := by
  cases access with
  | read address length => simp only [plus, add, Nat.add_assoc]
  | write address length => simp only [plus, add, Nat.add_assoc]

theorem foldl_add_plus (accesses : List Access) :
    accesses.foldl add (counts.plus growth) = counts.plus (accesses.foldl add growth) := by
  induction accesses generalizing growth with
  | nil => rfl
  | cons access others ih => rw [List.foldl_cons, List.foldl_cons, add_plus, ih]

end AccessCounts

/-! ## Sameness -/

namespace Memory

variable {size : Nat} {left right : Memory size}

theorem byteAt_congr (contents : left.cells = right.cells) : left.byteAt = right.byteAt := by
  funext address
  rw [byteAt, byteAt, contents]

end Memory

namespace Machine

variable {left right : Machine}

theorem sameState_iff :
    left.sameState right = true ↔
      left.registers = right.registers ∧ left.flags = right.flags ∧
        left.memory.cells = right.memory.cells ∧ left.ip = right.ip := by
  simp only [sameState, Memory.sameContents, Bool.and_eq_true, beq_iff_eq, and_assoc]

/-- The machines are the same, and their counters have grown alike since they had these values. -/
structure SameSince (leftCounts rightCounts : AccessCounts) (left right : Machine) : Prop where
  same : left.sameState right = true
  grown : ∃ growth, left.memory.counts = leftCounts.plus growth ∧
    right.memory.counts = rightCounts.plus growth

namespace SameSince

variable {leftCounts rightCounts : AccessCounts}

theorem refl (same : left.sameState right = true) :
    left.SameSince left.memory.counts right.memory.counts right :=
  ⟨same, {}, (AccessCounts.plus_zero _).symm, (AccessCounts.plus_zero _).symm⟩

theorem ip (since : left.SameSince leftCounts rightCounts right) : left.ip = right.ip :=
  (sameState_iff.mp since.same).2.2.2

theorem cells (since : left.SameSince leftCounts rightCounts right) :
    left.memory.cells = right.memory.cells :=
  (sameState_iff.mp since.same).2.2.1

theorem valueOf (since : left.SameSince leftCounts rightCounts right) (operand : Operand) :
    left.valueOf operand = right.valueOf operand := by
  obtain ⟨registers, _, cells, _⟩ := sameState_iff.mp since.same
  cases operand with
  | register register => simp only [Machine.valueOf, registers]
  | memory place => simp only [Machine.valueOf, Memory.valueAt, Memory.byteAt_congr cells]
  | immediate constant => rfl
  | relative displacement => rfl

theorem storing (since : left.SameSince leftCounts rightCounts right) (operand : Operand)
    (value : UInt16) :
    (left.storing operand value).SameSince leftCounts rightCounts
      (right.storing operand value) := by
  obtain ⟨registers, flags, cells, ip⟩ := sameState_iff.mp since.same
  cases operand with
  | register register =>
    refine ⟨sameState_iff.mpr ⟨?_, flags, cells, ip⟩, since.grown⟩
    simp only [Machine.storing, registers]
  | memory place =>
    simp only [Machine.storing]
    cases place.absolute? with
    | none => exact since
    | some address =>
      refine ⟨sameState_iff.mpr ⟨registers, flags, ?_, ip⟩, since.grown⟩
      simp only [cells]
  | immediate constant => exact since
  | relative displacement => exact since

theorem counting (since : left.SameSince leftCounts rightCounts right) (accesses : List Access) :
    (left.counting accesses).SameSince leftCounts rightCounts (right.counting accesses) := by
  obtain ⟨same, growth, grownLeft, grownRight⟩ := since
  refine ⟨sameState_iff.mpr (sameState_iff.mp same), accesses.foldl AccessCounts.add growth, ?_, ?_⟩
  · rw [Machine.counting, grownLeft, AccessCounts.foldl_add_plus]
  · rw [Machine.counting, grownRight, AccessCounts.foldl_add_plus]

theorem congruence (rule : SignRule) (leftCounts rightCounts : AccessCounts) :
    Congruence rule rule (SameSince leftCounts rightCounts) where
  ip := SameSince.ip
  zero since := by rw [(sameState_iff.mp since.same).2.1]
  valueOf operand since := since.valueOf operand
  atIndex _ since := by
    obtain ⟨registers, flags, cells, _⟩ := sameState_iff.mp since.same
    exact ⟨sameState_iff.mpr ⟨registers, flags, cells, rfl⟩, since.grown⟩
  counting accesses since := since.counting accesses
  storing operand value since := since.storing operand value
  setting _ _ since := by
    obtain ⟨registers, _, cells, ip⟩ := sameState_iff.mp since.same
    exact ⟨sameState_iff.mpr ⟨registers, rfl, cells, ip⟩, since.grown⟩

end SameSince
end Machine

/-! ## Direct operations -/

/-- Something done to the memory or the registers of a machine without an instruction. -/
inductive DirectOperation where
  | memory (request : MemoryRequest)
  | get (register : WordRegister)
  | set (register : WordRegister) (value : UInt16)
  | read (register : Register)
  | write (register : Register) (value : UInt16)
  | list
  deriving DecidableEq

inductive DirectReply where
  | memory (reply : MemoryReply)
  | value (value : UInt16)
  | contents (cells : List (WordRegister × UInt16))
  | written
  deriving DecidableEq

namespace DirectOperation

def perform : DirectOperation → Transition Machine OutOfRange Access DirectReply
  | .memory request => fun machine =>
    let outcome := request.perform machine.memory
    ⟨outcome.result.map .memory, { machine with memory := outcome.state }, outcome.events⟩
  | .get register => Transition.inspect fun machine => .value (machine.registers.get register)
  | .set register value => do
    Transition.update fun machine =>
      { machine with registers := machine.registers.set register value }
    return .written
  | .read register => Transition.inspect fun machine => .value (machine.registers.read register)
  | .write register value => do
    Transition.update fun machine =>
      { machine with registers := machine.registers.write register value }
    return .written
  | .list => Transition.inspect fun machine => .contents machine.registers.toList

/-- Operation for operation, two machines reply the same, stay the same and count the same. -/
def StayAlike : List DirectOperation → Machine → Machine → Prop
  | [], _, _ => True
  | operation :: others, left, right =>
    (operation.perform left).Alike (Machine.SameSince left.memory.counts right.memory.counts)
        (operation.perform right) ∧
      StayAlike others (operation.perform left).state (operation.perform right).state

section Same

variable {left right : Machine}

theorem memory_alike (request : MemoryRequest) (same : left.sameState right = true) :
    ((memory request).perform left).Alike
      (Machine.SameSince left.memory.counts right.memory.counts)
      ((memory request).perform right) := by
  obtain ⟨registers, flags, cells, ip⟩ := Machine.sameState_iff.mp same
  have bytes := Memory.byteAt_congr cells
  simp only [perform, MemoryRequest.perform_apply, bytes, cells]
  by_cases fits : request.Fits memorySize
  · simp only [if_pos fits]
    refine ⟨rfl, Machine.sameState_iff.mpr ⟨registers, flags, rfl, ip⟩, ?_⟩
    exact ⟨AccessCounts.add {} request.access, AccessCounts.add_plus _ {} _,
      AccessCounts.add_plus _ {} _⟩
  · simp only [if_neg fits]
    exact ⟨rfl, .refl same⟩

theorem registers_alike (reply : Registers → DirectReply) (change : Registers → Registers)
    (same : left.sameState right = true) :
    Outcome.Alike (Machine.SameSince left.memory.counts right.memory.counts)
      (⟨.ok (reply left.registers), { left with registers := change left.registers }, []⟩ :
        Outcome Machine OutOfRange Access DirectReply)
      ⟨.ok (reply right.registers), { right with registers := change right.registers }, []⟩ := by
  obtain ⟨registers, flags, cells, ip⟩ := Machine.sameState_iff.mp same
  rw [registers]
  exact ⟨rfl, Machine.sameState_iff.mpr ⟨rfl, flags, cells, ip⟩,
    (Machine.SameSince.refl same).grown⟩

theorem perform_alike (operation : DirectOperation) (same : left.sameState right = true) :
    (operation.perform left).Alike (Machine.SameSince left.memory.counts right.memory.counts)
      (operation.perform right) := by
  cases operation with
  | memory request => exact memory_alike request same
  | get register =>
    exact registers_alike (fun registers => .value (registers.get register)) id same
  | set register value =>
    exact registers_alike (fun _ => .written) (fun registers => registers.set register value) same
  | read register =>
    exact registers_alike (fun registers => .value (registers.read register)) id same
  | write register value =>
    exact registers_alike (fun _ => .written) (fun registers => registers.write register value) same
  | list => exact registers_alike (fun registers => .contents registers.toList) id same

theorem stayAlike (operations : List DirectOperation) (same : left.sameState right = true) :
    StayAlike operations left right := by
  induction operations generalizing left right with
  | nil => trivial
  | cons operation others ih =>
    have first := operation.perform_alike same
    exact ⟨first, ih first.states.same⟩

end Same

end DirectOperation

/-! ## Indistinguishable machines -/

/-- Two machines cannot be told apart by what is done to them, and both count the same for it. -/
structure CountersUnobserved (settings : RunSettings) (left right : Machine) : Prop where
  execute : ∀ instruction : Instruction,
    (instruction.execute settings.signRule left).Alike
      (Machine.SameSince left.memory.counts right.memory.counts)
      (instruction.execute settings.signRule right)
  step : ∀ program : Program,
    (Execution.step settings.signRule program left).Alike
      (Machine.SameSince left.memory.counts right.memory.counts)
      (Execution.step settings.signRule program right)
  run : ∀ (program : Program) (leftKeep rightKeep : ExecutionEvent → Bool),
    (Execution.run settings program leftKeep left).Alike
      (Machine.SameSince left.memory.counts right.memory.counts)
      (Execution.run settings program rightKeep right)
  direct : ∀ operations : List DirectOperation, DirectOperation.StayAlike operations left right

theorem Machine.counters_unobserved (settings : RunSettings) {left right : Machine}
    (same : left.sameState right = true) : CountersUnobserved settings left right where
  execute := by
    intro instruction
    exact (SameSince.congruence _ _ _).execute instruction (.refl same)
  step := by
    intro program
    exact (SameSince.congruence _ _ _).step program (.refl same)
  run := by
    intro program leftKeep rightKeep
    exact (SameSince.congruence _ _ _).run program settings.stepLimit (.refl same)
  direct := by
    intro operations
    exact DirectOperation.stayAlike operations same

theorem Machine.counters_unobserved_of_read :
    Machine.initial.sameState (Machine.initial.counting [.read 1000 2]) = true ∧
      CountersUnobserved {} Machine.initial (Machine.initial.counting [.read 1000 2]) := by
  have same : Machine.initial.sameState (Machine.initial.counting [.read 1000 2]) = true :=
    sameState_iff.mpr ⟨rfl, rfl, rfl, rfl⟩
  exact ⟨same, counters_unobserved {} same⟩

end Mini8086
