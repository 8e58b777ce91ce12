import Mini8086.Proofs.Steps

/-!
# Two machines in lockstep

A relation between machines that the primitives of execution keep is kept by everything made of
them.  Main statements, `Congruence.execute`, `Congruence.step` and `Congruence.run`: from related
machines, executions, steps and runs end alike, in related machines again.
-/

set_option autoImplicit false

namespace Mini8086

/-- Two outcomes that are the same value or the same error, with related states. -/
structure Outcome.Alike {σ ε ω α : Type} (relates : σ → σ → Prop) (left right : Outcome σ ε ω α) :
    Prop where
  result : left.result = right.result
  states : relates left.state right.state

theorem Outcome.Alike.exists_eq {σ ε ω α : Type} {relates : σ → σ → Prop}
    {left right : Outcome σ ε ω α} (alike : left.Alike relates right) :
    ∃ result leftLast rightLast leftEvents rightEvents,
      left = ⟨result, leftLast, leftEvents⟩ ∧ right = ⟨result, rightLast, rightEvents⟩ ∧
        relates leftLast rightLast := by
  obtain ⟨same, states⟩ := alike
  exact ⟨left.result, left.state, right.state, left.events, right.events, rfl, by rw [same], states⟩

/-- A relation between a machine that sets its flags by one rule and a machine that sets them by
another one: related machines show the same operands, zero flag and index, and they stay related
when the same is done to both. -/
structure Congruence (leftRule rightRule : SignRule) (relates : Machine → Machine → Prop) :
    Prop where
  ip : ∀ {left right : Machine}, relates left right → left.ip = right.ip
  zero : ∀ {left right : Machine}, relates left right → left.flags.zero = right.flags.zero
  valueOf : ∀ {left right : Machine} (operand : Operand), relates left right →
    left.valueOf operand = right.valueOf operand
  atIndex : ∀ {left right : Machine} (index : Nat), relates left right →
    relates (left.atIndex index) (right.atIndex index)
  counting : ∀ {left right : Machine} (accesses : List Access), relates left right →
    relates (left.counting accesses) (right.counting accesses)
  storing : ∀ {left right : Machine} (operand : Operand) (value : UInt16), relates left right →
    relates (left.storing operand value) (right.storing operand value)
  setting : ∀ {left right : Machine} (value : UInt16) (width : Width), relates left right →
    relates { left with flags := .ofResult leftRule value width }
      { right with flags := .ofResult rightRule value width }

namespace Congruence

variable {leftRule rightRule : SignRule} {relates : Machine → Machine → Prop}
  (congruent : Congruence leftRule rightRule relates) {left right : Machine}

include congruent

/-! ## Executions -/

theorem result (instruction : Instruction) (operation : DataOperation)
    (related : relates left right) :
    instruction.result operation left = instruction.result operation right := by
  have source : instruction.sourceValue left = instruction.sourceValue right := by
    unfold Instruction.sourceValue
    cases instruction.source with
    | none => rfl
    | some operand => simp [congruent.valueOf operand related]
  cases operation with
  | mov => simp only [Instruction.result, source]
  | arithmetic operation =>
    simp only [Instruction.result, source, congruent.valueOf instruction.destination related]

theorem effect (instruction : Instruction) (related : relates left right) :
    relates (instruction.effect leftRule left) (instruction.effect rightRule right) := by
  cases named : instruction.mnemonic with
  | branch jump =>
    rw [Instruction.effect_of_branch _ named, Instruction.effect_of_branch _ named]
    exact related
  | data operation =>
    rw [Instruction.effect_of_data _ named, Instruction.effect_of_data _ named,
      congruent.result instruction operation related, Instruction.finished, Instruction.finished]
    cases operation.stores with
    | false => exact congruent.setting _ _ related
    | true => exact congruent.setting _ _ (congruent.storing _ _ related)

theorem distance (instruction : Instruction) (related : relates left right) :
    instruction.distance left = instruction.distance right := by
  unfold Instruction.distance
  rw [congruent.zero related]

theorem execute (instruction : Instruction) (related : relates left right) :
    (instruction.execute leftRule left).Alike relates (instruction.execute rightRule right) := by
  have index := congruent.ip related
  cases failed : instruction.fault? left.ip with
  | some fault =>
    rw [Instruction.execute_of_fault leftRule failed]
    rw [index] at failed ⊢
    rw [Instruction.execute_of_fault rightRule failed]
    exact ⟨rfl, congruent.counting _ related⟩
  | none =>
    rw [Instruction.execute_of_no_fault leftRule failed]
    rw [index] at failed ⊢
    rw [Instruction.execute_of_no_fault rightRule failed, congruent.distance instruction related]
    exact ⟨rfl, congruent.counting _ (congruent.effect instruction related)⟩

/-! ## Steps and runs -/

variable (program : Program)

theorem step (related : relates left right) :
    (Execution.step leftRule program left).Alike relates
      (Execution.step rightRule program right) := by
  have index := congruent.ip related
  cases found : program[left.ip]? with
  | none =>
    rw [Execution.step_of_none found]
    rw [index] at found ⊢
    rw [Execution.step_of_none found]
    exact ⟨rfl, related⟩
  | some instruction =>
    rw [Execution.step_of_some found]
    rw [index] at found ⊢
    rw [Execution.step_of_some found]
    obtain ⟨result, leftLast, rightLast, leftEvents, rightEvents, one, other, after⟩ :=
      (congruent.execute instruction related).exists_eq
    rw [one, other]
    cases result with
    | error fault => exact ⟨rfl, after⟩
    | ok offset =>
      cases aimed : Execution.target program right.ip offset with
      | error fault =>
        simp only [aimed]
        exact ⟨rfl, after⟩
      | ok next =>
        simp only [aimed]
        exact ⟨rfl, congruent.atIndex next after⟩

theorem runFrom {leftKeep rightKeep : ExecutionEvent → Bool}
    {leftKept rightKept : List ExecutionEvent} {taken remaining : Nat}
    (related : relates left right) :
    (Execution.runFrom leftRule program leftKeep taken remaining leftKept left).Alike relates
      (Execution.runFrom rightRule program rightKeep taken remaining rightKept right) := by
  induction remaining generalizing left right taken leftKept rightKept with
  | zero =>
    have index := congruent.ip related
    rcases Nat.lt_or_ge left.ip program.size with inside | behind
    · rw [Execution.runFrom_zero inside]
      rw [index] at inside ⊢
      rw [Execution.runFrom_zero inside]
      exact ⟨rfl, related⟩
    · rw [Execution.runFrom_of_behind behind]
      rw [index] at behind
      rw [Execution.runFrom_of_behind behind]
      exact ⟨rfl, related⟩
  | succ remaining ih =>
    have index := congruent.ip related
    rcases Nat.lt_or_ge left.ip program.size with inside | behind
    · obtain ⟨result, leftNext, rightNext, leftEvents, rightEvents, one, other, after⟩ :=
        (congruent.step program related).exists_eq
      cases result with
      | ok value =>
        rw [Execution.runFrom_of_step one, Execution.runFrom_of_step other]
        exact ih after
      | error fault =>
        rw [Execution.runFrom_of_fault inside one]
        rw [index] at inside
        rw [Execution.runFrom_of_fault inside other]
        exact ⟨rfl, after⟩
    · rw [Execution.runFrom_of_behind behind]
      rw [index] at behind
      rw [Execution.runFrom_of_behind behind]
      exact ⟨rfl, related⟩

theorem run {leftKeep rightKeep : ExecutionEvent → Bool} (stepLimit : Nat)
    (related : relates left right) :
    (Execution.run ⟨stepLimit, leftRule⟩ program leftKeep left).Alike relates
      (Execution.run ⟨stepLimit, rightRule⟩ program rightKeep right) := by
  have index := congruent.ip related
  rcases Nat.lt_or_ge program.size left.ip with beyond | start
  · rw [Execution.run_of_beyond beyond]
    rw [index] at beyond ⊢
    rw [Execution.run_of_beyond beyond]
    exact ⟨rfl, related⟩
  · rw [Execution.run_eq_runFrom start]
    rw [index] at start
    rw [Execution.run_eq_runFrom start]
    exact congruent.runFrom program related

end Congruence
end Mini8086
