import Mini8086.Proofs.Steps

/-!
# Straight-line code

Instructions that neither fail nor jump can be executed one after the other with no thought for the
program they stand in.  Main statement, `Execution.steps_of_sequence`: where a program holds such
instructions in a row, stepping through them is executing them in their order, and the index ends
behind them.
-/

set_option autoImplicit false

namespace Mini8086

/-! ## Sequences of instructions -/

namespace Execution

/-- Executes instructions one after the other; the index stays where it is. -/
def sequence (rule : SignRule) : List Instruction → Execution Unit
  | [] => pure ()
  | instruction :: others => do
    let _ ← instruction.execute rule
    sequence rule others

section Sequence

variable {rule : SignRule} {start last : Machine}

@[simp]
theorem sequence_nil_leadsTo_iff : (sequence rule []).LeadsTo start last ↔ start = last := by
  simp [Transition.LeadsTo, sequence, Transition.pure_apply]

theorem sequence_cons_leadsTo_iff {instruction : Instruction} {others : List Instruction} :
    (sequence rule (instruction :: others)).LeadsTo start last ↔
      ∃ distance, (instruction.execute rule start).result = .ok distance ∧
        (sequence rule others).LeadsTo (instruction.execute rule start).state last := by
  unfold Transition.LeadsTo
  rw [sequence, Transition.bind_apply]
  obtain ⟨result, state, events⟩ := instruction.execute rule start
  cases result with
  | error fault => simp
  | ok distance => simp

theorem sequence_append_leadsTo_iff {front behind : List Instruction} :
    (sequence rule (front ++ behind)).LeadsTo start last ↔
      ∃ middle, (sequence rule front).LeadsTo start middle ∧
        (sequence rule behind).LeadsTo middle last := by
  induction front generalizing start with
  | nil => simp
  | cons instruction others ih =>
    rw [List.cons_append, sequence_cons_leadsTo_iff]
    simp only [ih, sequence_cons_leadsTo_iff]
    constructor
    · intro run
      obtain ⟨distance, executed, middle, first, second⟩ := run
      exact ⟨middle, ⟨distance, executed, first⟩, second⟩
    · intro run
      obtain ⟨middle, ⟨distance, executed, first⟩, second⟩ := run
      exact ⟨distance, executed, middle, first, second⟩

theorem ip_of_sequence {instructions : List Instruction}
    (run : (sequence rule instructions).LeadsTo start last) : last.ip = start.ip := by
  induction instructions generalizing start with
  | nil => rw [sequence_nil_leadsTo_iff.mp run]
  | cons instruction others ih =>
    obtain ⟨distance, executed, rest⟩ := sequence_cons_leadsTo_iff.mp run
    rw [ih rest, instruction.ip_execute]

theorem sequence_atIndex {instructions : List Instruction}
    (run : (sequence rule instructions).LeadsTo start last) (index : Nat) :
    (sequence rule instructions).LeadsTo (start.atIndex index) (last.atIndex index) := by
  induction instructions generalizing start with
  | nil =>
    rw [sequence_nil_leadsTo_iff] at run ⊢
    rw [run]
  | cons instruction others ih =>
    obtain ⟨distance, executed, rest⟩ := sequence_cons_leadsTo_iff.mp run
    refine sequence_cons_leadsTo_iff.mpr ⟨distance, ?_, ?_⟩
    · rw [instruction.result_execute_atIndex, executed]
      rfl
    · rw [instruction.state_execute_atIndex]
      exact ih rest

end Sequence

end Execution

/-! ## Instructions that always go on -/

/-- The instruction never fails, and what follows it is the instruction behind it. -/
structure Instruction.FallsThrough (instruction : Instruction) : Prop where
  fine : ∀ index : Nat, instruction.fault? index = none
  still : ∀ machine : Machine, instruction.distance machine = 0

namespace Instruction

theorem FallsThrough.result_execute {instruction : Instruction}
    (goesOn : instruction.FallsThrough) (rule : SignRule) (machine : Machine) :
    (instruction.execute rule machine).result = .ok 0 :=
  (result_execute_eq_ok_iff rule).mpr ⟨goesOn.fine machine.ip, goesOn.still machine⟩

theorem distance_of_not_jnz {instruction : Instruction}
    (other : instruction.mnemonic ≠ .branch .jnz) (machine : Machine) :
    instruction.distance machine = 0 := by
  by_contra moves
  exact other (taken_of_distance moves).1

end Instruction

theorem Machine.get_storing_of_ne (machine : Machine) {operand : Operand} (value : UInt16)
    {kept : WordRegister}
    (elsewhere : ∀ register : Register, operand = .register register → kept ≠ register.parent) :
    (machine.storing operand value).registers.get kept = machine.registers.get kept := by
  cases operand with
  | register register =>
    exact machine.registers.get_write_of_ne value (elsewhere register rfl)
  | memory place =>
    simp only [storing]
    cases place.absolute? <;> rfl
  | immediate constant => rfl
  | relative displacement => rfl

namespace Instruction

/-- The instruction stores nothing in the word register, nor in a half of it. -/
def Keeps (instruction : Instruction) (kept : WordRegister) : Prop :=
  ∀ (operation : DataOperation) (register : Register),
    instruction.mnemonic = .data operation → operation.stores = true →
      instruction.destination = .register register → kept ≠ register.parent

theorem Keeps.get_execute {instruction : Instruction} {kept : WordRegister}
    (keeps : instruction.Keeps kept) (goesOn : instruction.FallsThrough) (rule : SignRule)
    (machine : Machine) :
    (instruction.execute rule machine).state.registers.get kept = machine.registers.get kept := by
  rw [execute_of_no_fault rule (goesOn.fine machine.ip)]
  simp only [Machine.registers_counting]
  cases named : instruction.mnemonic with
  | branch jump => rw [effect_of_branch rule named]
  | data operation =>
    rw [effect_of_data rule named, finished]
    cases stores : operation.stores with
    | false => rfl
    | true =>
      exact machine.get_storing_of_ne _ fun register => keeps operation register named stores

end Instruction

/-! ## Straight-line code in a program -/

theorem Program.placed_cons {program : Program} {index : Nat} {instruction : Instruction}
    {others : List Instruction} (placed : instruction :: others <+: program.toList.drop index) :
    program[index]? = some instruction ∧ others <+: program.toList.drop (index + 1) := by
  obtain ⟨more, cut⟩ := placed
  constructor
  · rw [← Array.getElem?_toList, ← List.head?_drop, ← cut]
    rfl
  · rw [← List.drop_drop, ← cut]
    exact ⟨more, rfl⟩

namespace Execution

section Straight

variable {rule : SignRule} {instructions : List Instruction}
  (goOn : ∀ instruction ∈ instructions, instruction.FallsThrough)

include goOn

theorem exists_sequence (start : Machine) :
    ∃ last, (sequence rule instructions).LeadsTo start last := by
  induction instructions generalizing start with
  | nil => exact ⟨start, sequence_nil_leadsTo_iff.mpr rfl⟩
  | cons instruction others ih =>
    obtain ⟨first, rest⟩ := List.forall_mem_cons.mp goOn
    obtain ⟨last, run⟩ := ih rest (instruction.execute rule start).state
    exact ⟨last, sequence_cons_leadsTo_iff.mpr ⟨0, first.result_execute rule start, run⟩⟩

theorem get_of_sequence {kept : WordRegister} {start last : Machine}
    (keep : ∀ instruction ∈ instructions, instruction.Keeps kept)
    (run : (sequence rule instructions).LeadsTo start last) :
    last.registers.get kept = start.registers.get kept := by
  induction instructions generalizing start with
  | nil => rw [sequence_nil_leadsTo_iff.mp run]
  | cons instruction others ih =>
    obtain ⟨first, rest⟩ := List.forall_mem_cons.mp goOn
    obtain ⟨keeps, keepRest⟩ := List.forall_mem_cons.mp keep
    obtain ⟨distance, executed, behind⟩ := sequence_cons_leadsTo_iff.mp run
    rw [ih rest keepRest behind, keeps.get_execute first]

/-- Stepping through straight-line code is executing it. -/
theorem steps_of_sequence {program : Program} {start last : Machine}
    (placed : instructions <+: program.toList.drop start.ip)
    (run : (sequence rule instructions).LeadsTo start last) :
    ((step rule program).times instructions.length).LeadsTo start
      (last.atIndex (start.ip + instructions.length)) := by
  induction instructions generalizing start last with
  | nil =>
    rw [sequence_nil_leadsTo_iff] at run
    subst run
    exact Transition.times_zero_leadsTo_iff.mpr rfl
  | cons instruction others ih =>
    obtain ⟨first, rest⟩ := List.forall_mem_cons.mp goOn
    obtain ⟨distance, executed, behind⟩ := sequence_cons_leadsTo_iff.mp run
    obtain ⟨found, left⟩ := Program.placed_cons placed
    have stepped : (step rule program).LeadsTo start
        ((instruction.execute rule start).state.atIndex (start.ip + 1)) :=
      (step_leadsTo_iff found).mpr ⟨0, _, first.result_execute rule start, rfl, rfl⟩
    have walked := ih rest left (sequence_atIndex behind (start.ip + 1))
    have place : start.ip + (instruction :: others).length = start.ip + 1 + others.length := by
      rw [List.length_cons]
      omega
    rw [place]
    exact Transition.times_succ_leadsTo_iff.mpr ⟨_, stepped, walked⟩

end Straight

end Execution
end Mini8086
