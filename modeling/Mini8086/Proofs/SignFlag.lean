import Mini8086.Proofs.Lockstep

/-!
# The sign flag is never looked at

Of the flags only the zero flag decides anything, a jump of `jnz`.  Main statement,
`Machine.AgreesButSign.unobserved`: machines that differ in the sign flag at most, under any two
rules for setting it, do the same and go on to differ in the sign flag at most.
-/

set_option autoImplicit false

namespace Mini8086.Machine

/-- The machines agree on everything but the sign flag, which may differ. -/
structure AgreesButSign (left right : Machine) : Prop where
  registers : left.registers = right.registers
  memory : left.memory = right.memory
  zero : left.flags.zero = right.flags.zero
  ip : left.ip = right.ip

namespace AgreesButSign

variable {left right : Machine}

theorem valueOf (agree : left.AgreesButSign right) (operand : Operand) :
    left.valueOf operand = right.valueOf operand := by
  cases operand with
  | register register => simp only [Machine.valueOf, agree.registers]
  | memory place => simp only [Machine.valueOf, agree.memory]
  | immediate constant => rfl
  | relative displacement => rfl

theorem storing (agree : left.AgreesButSign right) (operand : Operand) (value : UInt16) :
    (left.storing operand value).AgreesButSign (right.storing operand value) := by
  obtain ⟨registers, memory, zero, ip⟩ := agree
  cases operand with
  | register register => exact ⟨by simp only [Machine.storing, registers], memory, zero, ip⟩
  | memory place =>
    simp only [Machine.storing]
    cases place.absolute? with
    | some address => exact ⟨registers, by simp only [memory], zero, ip⟩
    | none => exact ⟨registers, memory, zero, ip⟩
  | immediate constant => exact ⟨registers, memory, zero, ip⟩
  | relative displacement => exact ⟨registers, memory, zero, ip⟩

theorem congruence (leftRule rightRule : SignRule) :
    Congruence leftRule rightRule AgreesButSign where
  ip := AgreesButSign.ip
  zero := AgreesButSign.zero
  valueOf operand agree := agree.valueOf operand
  atIndex _ agree := ⟨agree.registers, agree.memory, agree.zero, rfl⟩
  counting _ agree := ⟨agree.registers, by simp only [Machine.counting, agree.memory], agree.zero,
    agree.ip⟩
  storing operand value agree := agree.storing operand value
  setting _ _ agree := ⟨agree.registers, agree.memory, rfl, agree.ip⟩

end AgreesButSign

/-- Two machines, each with its own rule for the sign flag, cannot be told apart by anything but
that flag: the same errors, the same distances, and the same states otherwise. -/
structure SignUnobserved (leftRule rightRule : SignRule) (left right : Machine) : Prop where
  execute : ∀ instruction : Instruction,
    (instruction.execute leftRule left).Alike AgreesButSign (instruction.execute rightRule right)
  step : ∀ program : Program,
    (Execution.step leftRule program left).Alike AgreesButSign
      (Execution.step rightRule program right)
  run : ∀ (program : Program) (stepLimit : Nat) (leftKeep rightKeep : ExecutionEvent → Bool),
    (Execution.run ⟨stepLimit, leftRule⟩ program leftKeep left).Alike AgreesButSign
      (Execution.run ⟨stepLimit, rightRule⟩ program rightKeep right)

theorem AgreesButSign.unobserved (leftRule rightRule : SignRule) {left right : Machine}
    (agree : left.AgreesButSign right) : SignUnobserved leftRule rightRule left right where
  execute := by
    intro instruction
    exact (congruence leftRule rightRule).execute instruction agree
  step := by
    intro program
    exact (congruence leftRule rightRule).step program agree
  run := by
    intro program stepLimit leftKeep rightKeep
    exact (congruence leftRule rightRule).run program stepLimit agree

theorem AgreesButSign.unobserved_of_initial :
    Machine.AgreesButSign { Machine.initial with flags := ⟨false, true⟩ } Machine.initial ∧
      SignUnobserved .nonZero .highBit { Machine.initial with flags := ⟨false, true⟩ }
        Machine.initial := by
  have agree : Machine.AgreesButSign { Machine.initial with flags := ⟨false, true⟩ }
      Machine.initial := ⟨rfl, rfl, rfl, rfl⟩
  exact ⟨agree, AgreesButSign.unobserved .nonZero .highBit agree⟩

end Mini8086.Machine
