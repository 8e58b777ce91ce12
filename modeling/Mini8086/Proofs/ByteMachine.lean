import Mini8086.Proofs.Image
import Mini8086.Proofs.Steps

/-!
# The byte machine

A second machine, without a program: its program counter is an address in the image, and it decodes
an instruction anew at every step.  A jump may lead it anywhere.  On the image of a program,
stepping through the program is what the byte machine does, for as long as its program counter stays
on the addresses of instructions.
-/

set_option autoImplicit false

namespace Mini8086

/-! ## Fetching, decoding and executing at an address -/

structure ByteMachine where
  registers : Registers
  flags : Flags
  memory : Memory memorySize
  pc : Int

inductive ByteFault where
  | undecodable (pc : Int)
  | execution (fault : Fault)

def Machine.atPc (machine : Machine) (pc : Int) : ByteMachine where
  registers := machine.registers
  flags := machine.flags
  memory := machine.memory
  pc := pc

namespace ByteMachine

/-- The machine that executes an instruction; its faults and events name the address. -/
def core (machine : ByteMachine) : Machine where
  registers := machine.registers
  flags := machine.flags
  memory := machine.memory
  ip := machine.pc.toNat

def fetch (signExtend : Bool) (image : List UInt8) (pc : Int) : Except ByteFault Instruction :=
  if pc < 0 then
    .error (.undecodable pc)
  else
    match Instruction.decodeOne signExtend (image.drop pc.toNat) with
    | .ok instruction => .ok instruction
    | .error _ => .error (.undecodable pc)

/-- Executes the instruction at the program counter, and moves the program counter behind it and
then by the distance that it yields. -/
def step (rule : SignRule) (signExtend : Bool) (image : List UInt8) :
    Transition ByteMachine ByteFault ExecutionEvent Unit := fun machine =>
  match fetch signExtend image machine.pc with
  | .error fault => ⟨.error fault, machine, []⟩
  | .ok instruction =>
    match instruction.execute rule machine.core with
    | ⟨.error fault, last, events⟩ => ⟨.error (.execution fault), last.atPc machine.pc, events⟩
    | ⟨.ok distance, last, events⟩ =>
      ⟨.ok (), last.atPc (machine.pc + instruction.length + distance), events⟩

end ByteMachine

/-! ## Machines on an image -/

/-- The byte machine in the same state, where the program counter is the address of the next
instruction. -/
def Machine.onImage (machine : Machine) (program : Program) : ByteMachine :=
  machine.atPc (program.address machine.ip)

theorem Machine.core_onImage (machine : Machine) (program : Program) :
    (machine.onImage program).core = machine.atIndex (program.address machine.ip) := rfl

theorem Machine.atIndex_of_atPc {machine last : Machine} {program : Program} {pc : Int}
    (same : machine.atPc pc = last.onImage program) : machine.atIndex last.ip = last := by
  obtain ⟨registers, flags, memory, ip⟩ := last
  simp only [Machine.atPc, Machine.onImage, ByteMachine.mk.injEq] at same
  obtain ⟨rfl, rfl, rfl, _⟩ := same
  rfl

namespace Execution

section Targets

variable {signExtend : Bool} {image : List UInt8} {program : Program}
  (decoded : Program.decode signExtend image = .ok program) {index : Nat} {offset : Int}
  (inside : index < program.size)

include decoded inside

theorem target_eq_ok_iff {next : Nat} :
    target program index offset = .ok next ↔
      next ≤ program.size ∧
        (program.address next : Int) = program.address (index + 1) + offset := by
  rw [target_eq inside, ← Program.resolveJump_eq_ok_iff decoded inside]
  cases resolveJump Instruction.length program index offset <;> simp [Except.mapError]

theorem target_eq_error_iff {fault : Fault} :
    target program index offset = .error fault ↔
      (((program.address (index + 1) : Int) + offset < 0 ∨
          (image.length : Int) < program.address (index + 1) + offset) ∧
        fault = .invalidJumpTarget index (.outOfRange index offset)) ∨
      (program.InsideInstruction (program.address (index + 1) + offset) ∧
        fault = .invalidJumpTarget index (.misaligned index offset)) := by
  rw [target_eq inside, ← Program.resolveJump_eq_outOfRange_iff decoded inside,
    ← Program.resolveJump_eq_misaligned_iff inside]
  cases resolved : resolveJump Instruction.length program index offset with
  | ok next => simp [Except.mapError]
  | error cause =>
    rcases resolveJump_error resolved with rfl | rfl
    · simp [Except.mapError, eq_comm]
    · simp [Except.mapError, eq_comm]

end Targets

end Execution

namespace ByteMachine

section AtInstruction

variable {rule : SignRule} {signExtend : Bool} {image : List UInt8} {program : Program}
  {machine : Machine} {instruction : Instruction}
  (decoded : Program.decode signExtend image = .ok program)
  (found : program[machine.ip]? = some instruction)

include decoded found

theorem fetch_eq_ok : fetch signExtend image (program.address machine.ip) = .ok instruction := by
  have read := Program.decodeOne_at_address decoded found
  have nonnegative : ¬ ((program.address machine.ip : Nat) : Int) < 0 := by omega
  rw [fetch, if_neg nonnegative, Int.toNat_natCast, read]

theorem step_apply :
    step rule signExtend image (machine.onImage program) =
      match instruction.execute rule (machine.atIndex (program.address machine.ip)) with
      | ⟨.error fault, last, events⟩ =>
        ⟨.error (.execution fault), last.atPc (program.address machine.ip), events⟩
      | ⟨.ok distance, last, events⟩ =>
        ⟨.ok (), last.atPc (program.address (machine.ip + 1) + distance), events⟩ := by
  have pc : (machine.onImage program).pc = program.address machine.ip := rfl
  rw [step, pc, fetch_eq_ok decoded found, Machine.core_onImage, Program.address_succ found,
    Nat.cast_add]

theorem step_leadsTo_iff {next : ByteMachine} :
    (step rule signExtend image).LeadsTo (machine.onImage program) next ↔
      ∃ distance, (instruction.execute rule machine).result = .ok distance ∧
        (instruction.execute rule machine).state.atPc
          (program.address (machine.ip + 1) + distance) = next := by
  have result := instruction.result_execute_atIndex rule machine (program.address machine.ip)
  have state := instruction.state_execute_atIndex rule machine (program.address machine.ip)
  unfold Transition.LeadsTo
  rw [step_apply decoded found]
  generalize instruction.execute rule (machine.atIndex (program.address machine.ip)) = moved
    at result state ⊢
  obtain ⟨moved, last, events⟩ := moved
  simp only at result state
  subst result state
  cases (instruction.execute rule machine).result with
  | error fault => simp [Except.mapError]
  | ok distance => simp [Except.mapError, Machine.atPc, Machine.atIndex]

theorem result_step_eq_execution_iff {fault : Fault} :
    (step rule signExtend image (machine.onImage program)).result = .error (.execution fault) ↔
      ∃ cause, (instruction.execute rule machine).result = .error cause ∧
        cause.atIndex (program.address machine.ip) = fault := by
  have result := instruction.result_execute_atIndex rule machine (program.address machine.ip)
  rw [step_apply decoded found]
  generalize instruction.execute rule (machine.atIndex (program.address machine.ip)) = moved
    at result ⊢
  obtain ⟨moved, last, events⟩ := moved
  simp only at result
  subst result
  cases (instruction.execute rule machine).result with
  | error fault => simp [Except.mapError]
  | ok distance => simp [Except.mapError]

end AtInstruction

/-! ## One step on both machines -/

/-- Why a step through the program fails, told on the byte machine. -/
inductive Explains (rule : SignRule) (signExtend : Bool) (image : List UInt8) (program : Program)
    (machine : Machine) : Fault → Prop where
  | execution {fault : Fault}
      (failed : (step rule signExtend image (machine.onImage program)).result =
        .error (.execution fault)) :
      Explains rule signExtend image program machine (fault.atIndex machine.ip)
  | outside {next : ByteMachine}
      (moved : (step rule signExtend image).LeadsTo (machine.onImage program) next)
      (outside : next.pc < 0 ∨ image.length < next.pc) :
      Explains rule signExtend image program machine
        (.invalidJumpTarget machine.ip
          (.outOfRange machine.ip (next.pc - program.address (machine.ip + 1))))
  | inside {next : ByteMachine}
      (moved : (step rule signExtend image).LeadsTo (machine.onImage program) next)
      (inside : program.InsideInstruction next.pc) :
      Explains rule signExtend image program machine
        (.invalidJumpTarget machine.ip
          (.misaligned machine.ip (next.pc - program.address (machine.ip + 1))))

section Step

variable {rule : SignRule} {signExtend : Bool} {image : List UInt8} {program : Program}
  {machine last : Machine} (decoded : Program.decode signExtend image = .ok program)
  (inside : machine.ip < program.size)

include decoded inside

theorem step_succeeds_iff :
    (Execution.step rule program).LeadsTo machine last ↔
      (step rule signExtend image).LeadsTo (machine.onImage program) (last.onImage program) ∧
        last.ip ≤ program.size := by
  have found : program[machine.ip]? = some program[machine.ip] := Array.getElem?_eq_getElem inside
  rw [Execution.step_leadsTo_iff found, step_leadsTo_iff decoded found]
  constructor
  · intro stepped
    obtain ⟨distance, next, executed, aimed, rfl⟩ := stepped
    obtain ⟨within, lands⟩ := (Execution.target_eq_ok_iff decoded inside).mp aimed
    refine ⟨⟨distance, executed, ?_⟩, within⟩
    rw [← lands]
    rfl
  · intro stepped
    obtain ⟨⟨distance, executed, same⟩, within⟩ := stepped
    have lands := congrArg ByteMachine.pc same
    exact ⟨distance, last.ip, executed,
      (Execution.target_eq_ok_iff decoded inside).mpr ⟨within, lands.symm⟩,
      Machine.atIndex_of_atPc same⟩

theorem step_fails_iff {fault : Fault} :
    (Execution.step rule program machine).result = .error fault ↔
      Explains rule signExtend image program machine fault := by
  have found : program[machine.ip]? = some program[machine.ip] := Array.getElem?_eq_getElem inside
  rw [Execution.result_step_eq_error_iff found]
  have behind : ∀ distance : Int,
      (program.address (machine.ip + 1) : Int) + distance - program.address (machine.ip + 1) =
        distance := by
    intro distance
    omega
  constructor
  · intro failed
    rcases failed with failed | ⟨distance, executed, lost⟩
    · have stopped := (result_step_eq_execution_iff decoded found).mpr ⟨fault, failed, rfl⟩
      have told := Explains.execution stopped
      rwa [Fault.atIndex_atIndex, Instruction.atIndex_ip_of_execute failed] at told
    · have moved := (step_leadsTo_iff decoded found).mpr ⟨distance, executed, rfl⟩
      rcases (Execution.target_eq_error_iff decoded inside).mp lost with
        ⟨outside, rfl⟩ | ⟨between, rfl⟩
      · have told := Explains.outside moved outside
        rwa [Machine.atPc, behind] at told
      · have told := Explains.inside moved between
        rwa [Machine.atPc, behind] at told
  · intro explained
    cases explained with
    | execution failed =>
      obtain ⟨cause, executed, rfl⟩ := (result_step_eq_execution_iff decoded found).mp failed
      rw [Fault.atIndex_atIndex, Instruction.atIndex_ip_of_execute executed]
      exact .inl executed
    | outside moved outside =>
      obtain ⟨distance, executed, rfl⟩ := (step_leadsTo_iff decoded found).mp moved
      simp only [Machine.atPc, behind] at outside ⊢
      exact .inr ⟨distance, executed,
        (Execution.target_eq_error_iff decoded inside).mpr (.inl ⟨outside, rfl⟩)⟩
    | inside moved between =>
      obtain ⟨distance, executed, rfl⟩ := (step_leadsTo_iff decoded found).mp moved
      simp only [Machine.atPc, behind] at between ⊢
      exact .inr ⟨distance, executed,
        (Execution.target_eq_error_iff decoded inside).mpr (.inr ⟨between, rfl⟩)⟩

end Step

/-! ## Any number of steps -/

/-- The byte machine makes this many steps, and its program counter is on the address of an
instruction, or at the end of the image, all the way. -/
def Follows (rule : SignRule) (signExtend : Bool) (image : List UInt8) (program : Program)
    (count : Nat) (start last : ByteMachine) : Prop :=
  ((step rule signExtend image).times count).LeadsTo start last ∧
    ∀ fewer ≤ count, ∀ middle, ((step rule signExtend image).times fewer).LeadsTo start middle →
      program.OnBoundary middle.pc

section Follows

variable {rule : SignRule} {signExtend : Bool} {image : List UInt8} {program : Program}
  {count : Nat} {start last : ByteMachine}

theorem follows_zero_iff :
    Follows rule signExtend image program 0 start last ↔
      start = last ∧ program.OnBoundary start.pc := by
  unfold Follows
  rw [Transition.times_zero_leadsTo_iff]
  constructor
  · intro follows
    exact ⟨follows.1, follows.2 0 (Nat.le_refl 0) start (by simp)⟩
  · intro stays
    refine ⟨stays.1, ?_⟩
    intro fewer few middle reached
    rw [Nat.le_zero.mp few, Transition.times_zero_leadsTo_iff] at reached
    rw [← reached]
    exact stays.2

theorem follows_succ_iff :
    Follows rule signExtend image program (count + 1) start last ↔
      program.OnBoundary start.pc ∧ ∃ next, (step rule signExtend image).LeadsTo start next ∧
        Follows rule signExtend image program count next last := by
  unfold Follows
  rw [Transition.times_succ_leadsTo_iff]
  constructor
  · intro follows
    obtain ⟨⟨next, first, others⟩, boundaries⟩ := follows
    refine ⟨boundaries 0 (Nat.zero_le _) start (by simp), next, first, others, ?_⟩
    intro fewer few middle reached
    exact boundaries (fewer + 1) (Nat.succ_le_succ few) middle
      (Transition.times_succ_leadsTo_iff.mpr ⟨next, first, reached⟩)
  · intro follows
    obtain ⟨boundary, next, first, others, boundaries⟩ := follows
    refine ⟨⟨next, first, others⟩, ?_⟩
    intro fewer few middle reached
    cases fewer with
    | zero =>
      rw [Transition.times_zero_leadsTo_iff] at reached
      rwa [← reached]
    | succ fewer =>
      obtain ⟨between, begun, rest⟩ := Transition.times_succ_leadsTo_iff.mp reached
      rw [begun.unique first] at rest
      exact boundaries fewer (Nat.le_of_succ_le_succ few) middle rest

end Follows

theorem onBoundary_onImage {machine : Machine} {program : Program}
    (start : machine.ip ≤ program.size) : program.OnBoundary (machine.onImage program).pc :=
  ⟨machine.ip, start, rfl⟩

theorem exists_machine {program : Program} {machine : ByteMachine}
    (boundary : program.OnBoundary machine.pc) :
    ∃ counterpart : Machine, counterpart.ip ≤ program.size ∧
      counterpart.onImage program = machine := by
  obtain ⟨index, within, same⟩ := boundary
  obtain ⟨registers, flags, memory, pc⟩ := machine
  simp only at same
  subst same
  exact ⟨⟨registers, flags, memory, index⟩, within, rfl⟩

section Steps

variable {rule : SignRule} {signExtend : Bool} {image : List UInt8} {program : Program}
  {machine last : Machine} {count : Nat}
  (decoded : Program.decode signExtend image = .ok program)

include decoded

theorem ip_lt_size_of_leadsTo (start : machine.ip ≤ program.size) {next : ByteMachine}
    (moved : (step rule signExtend image).LeadsTo (machine.onImage program) next) :
    machine.ip < program.size := by
  by_contra behind
  have finished : machine.ip = program.size := Nat.le_antisymm start (Nat.le_of_not_lt behind)
  have nothing : fetch signExtend image (machine.onImage program).pc =
      .error (.undecodable (machine.onImage program).pc) := by
    have pc : (machine.onImage program).pc = image.length := by
      rw [← Program.address_size decoded, ← finished]
      rfl
    have nonnegative : ¬ ((image.length : Nat) : Int) < 0 := by omega
    rw [fetch, pc, if_neg nonnegative, Int.toNat_natCast, List.drop_length]
    cases read : Instruction.decodeOne signExtend [] with
    | error error => rfl
    | ok instruction =>
      obtain ⟨encoding, front, _⟩ := Instruction.decodeOne_eq_ok_iff.mp read
      have bounds := encoding.length_bounds
      have empty := front.length_le
      rw [Encoding.length] at bounds
      rw [List.length_nil] at empty
      omega
  apply moved.not_error (.undecodable (machine.onImage program).pc)
  rw [step, nothing]

theorem onImage_inj (start : machine.ip ≤ program.size) (finish : last.ip ≤ program.size)
    (same : machine.onImage program = last.onImage program) : machine = last := by
  have pc := congrArg ByteMachine.pc same
  have ip : last.ip = machine.ip :=
    (Program.address_inj decoded start finish (Int.ofNat.inj pc)).symm
  have moved := Machine.atIndex_of_atPc same
  rw [ip] at moved
  exact moved

theorem steps_succeed_iff (start : machine.ip ≤ program.size) :
    ((Execution.step rule program).times count).LeadsTo machine last ↔
      Follows rule signExtend image program count (machine.onImage program)
          (last.onImage program) ∧ last.ip ≤ program.size := by
  induction count generalizing machine with
  | zero =>
    rw [Transition.times_zero_leadsTo_iff, follows_zero_iff]
    constructor
    · intro same
      subst same
      exact ⟨⟨rfl, onBoundary_onImage start⟩, start⟩
    · intro same
      obtain ⟨⟨same, _⟩, ended⟩ := same
      exact onImage_inj decoded start ended same
  | succ count ih =>
    rw [Transition.times_succ_leadsTo_iff, follows_succ_iff]
    constructor
    · intro stepped
      obtain ⟨next, first, others⟩ := stepped
      have inside := Execution.ip_lt_size_of_step first
      obtain ⟨moved, within⟩ := (step_succeeds_iff decoded inside).mp first
      obtain ⟨follows, ended⟩ := (ih within).mp others
      exact ⟨⟨onBoundary_onImage start, next.onImage program, moved, follows⟩, ended⟩
    · intro followed
      obtain ⟨⟨_, next, moved, follows⟩, ended⟩ := followed
      -- Where the byte machine stopped on a boundary it is the image of a machine again, and only
      -- then is its step one through the program.
      have boundary := follows.2 0 (Nat.zero_le count) next (by simp)
      obtain ⟨counterpart, within, rfl⟩ := exists_machine boundary
      have inside := ip_lt_size_of_leadsTo decoded start moved
      exact ⟨counterpart, (step_succeeds_iff decoded inside).mpr ⟨moved, within⟩,
        (ih within).mpr ⟨follows, ended⟩⟩

theorem steps_fail_iff (start : machine.ip ≤ program.size) {fault : Fault} :
    ((Execution.step rule program).times count machine).result = .error fault ↔
      ∃ fewer < count, ∃ middle : Machine, middle.ip ≤ program.size ∧
        Follows rule signExtend image program fewer (machine.onImage program)
          (middle.onImage program) ∧
        (if middle.ip < program.size then Explains rule signExtend image program middle fault
          else fault = Execution.noInstruction middle.ip) := by
  rw [Transition.result_times_eq_error_iff]
  have lastStep : ∀ middle : Machine,
      (Execution.step rule program middle).result = .error fault ↔
        (if middle.ip < program.size then Explains rule signExtend image program middle fault
          else fault = Execution.noInstruction middle.ip) := by
    intro middle
    by_cases inside : middle.ip < program.size
    · rw [if_pos inside, step_fails_iff decoded inside]
    · rw [if_neg inside, Execution.step_of_none (by simp; omega)]
      simp [eq_comm]
  simp only [lastStep, steps_succeed_iff decoded start]
  constructor
  · intro failed
    obtain ⟨fewer, few, middle, ⟨follows, within⟩, stopped⟩ := failed
    exact ⟨fewer, few, middle, within, follows, stopped⟩
  · intro failed
    obtain ⟨fewer, few, middle, within, follows, stopped⟩ := failed
    exact ⟨fewer, few, middle, ⟨follows, within⟩, stopped⟩

theorem run_succeeds_iff (start : machine.ip ≤ program.size) {settings : RunSettings}
    {keep : ExecutionEvent → Bool} :
    (Execution.run settings program keep).LeadsTo machine last ↔
      ∃ count ≤ settings.stepLimit,
        Follows settings.signRule signExtend image program count (machine.onImage program)
          (last.onImage program) ∧ last.ip = program.size := by
  rw [Execution.run_leadsTo_iff start]
  simp only [steps_succeed_iff decoded start]
  constructor
  · intro ended
    obtain ⟨count, few, ⟨follows, _⟩, finished⟩ := ended
    exact ⟨count, few, follows, finished⟩
  · intro ended
    obtain ⟨count, few, follows, finished⟩ := ended
    exact ⟨count, few, ⟨follows, Nat.le_of_eq finished⟩, finished⟩

theorem run_fails_iff (start : machine.ip ≤ program.size) {settings : RunSettings}
    {keep : ExecutionEvent → Bool} {fault : Fault} :
    (Execution.run settings program keep machine).result = .error fault ↔
      (∃ count < settings.stepLimit, ∃ middle : Machine, middle.ip < program.size ∧
        Follows settings.signRule signExtend image program count (machine.onImage program)
          (middle.onImage program) ∧
        Explains settings.signRule signExtend image program middle fault) ∨
      ∃ middle : Machine, middle.ip < program.size ∧
        Follows settings.signRule signExtend image program settings.stepLimit
          (machine.onImage program) (middle.onImage program) ∧
        fault = .stepLimitExceeded middle.ip settings.stepLimit := by
  rw [Execution.result_run_eq_error_iff start]
  simp only [steps_succeed_iff decoded start]
  constructor
  · intro failed
    rcases failed with ⟨count, few, middle, ⟨follows, _⟩, inside, stopped⟩ |
      ⟨middle, ⟨follows, _⟩, inside, exceeded⟩
    · exact .inl ⟨count, few, middle, inside, follows, (step_fails_iff decoded inside).mp stopped⟩
    · exact .inr ⟨middle, inside, follows, exceeded⟩
  · intro failed
    rcases failed with ⟨count, few, middle, inside, follows, stopped⟩ |
      ⟨middle, inside, follows, exceeded⟩
    · exact .inl ⟨count, few, middle, ⟨follows, Nat.le_of_lt inside⟩, inside,
        (step_fails_iff decoded inside).mpr stopped⟩
    · exact .inr ⟨middle, ⟨follows, Nat.le_of_lt inside⟩, inside, exceeded⟩

end Steps

/-! ## The refinement -/

/-- Stepping through a program is what the byte machine does on its image. -/
structure Refinement (signExtend : Bool) (image : List UInt8) (program : Program) : Prop where
  step_succeeds : ∀ (rule : SignRule) (machine last : Machine), machine.ip < program.size →
    ((Execution.step rule program).LeadsTo machine last ↔
      (step rule signExtend image).LeadsTo (machine.onImage program) (last.onImage program) ∧
        last.ip ≤ program.size)
  step_fails : ∀ (rule : SignRule) (machine : Machine) (fault : Fault),
    machine.ip < program.size →
      ((Execution.step rule program machine).result = .error fault ↔
        Explains rule signExtend image program machine fault)
  steps_succeed : ∀ (rule : SignRule) (count : Nat) (machine last : Machine),
    machine.ip ≤ program.size →
      (((Execution.step rule program).times count).LeadsTo machine last ↔
        Follows rule signExtend image program count (machine.onImage program)
            (last.onImage program) ∧ last.ip ≤ program.size)
  steps_fail : ∀ (rule : SignRule) (count : Nat) (machine : Machine) (fault : Fault),
    machine.ip ≤ program.size →
      (((Execution.step rule program).times count machine).result = .error fault ↔
        ∃ fewer < count, ∃ middle : Machine, middle.ip ≤ program.size ∧
          Follows rule signExtend image program fewer (machine.onImage program)
            (middle.onImage program) ∧
          (if middle.ip < program.size then Explains rule signExtend image program middle fault
            else fault = Execution.noInstruction middle.ip))
  run_succeeds : ∀ (settings : RunSettings) (keep : ExecutionEvent → Bool)
    (machine last : Machine), machine.ip ≤ program.size →
      ((Execution.run settings program keep).LeadsTo machine last ↔
        ∃ count ≤ settings.stepLimit,
          Follows settings.signRule signExtend image program count (machine.onImage program)
            (last.onImage program) ∧ last.ip = program.size)
  run_fails : ∀ (settings : RunSettings) (keep : ExecutionEvent → Bool) (machine : Machine)
    (fault : Fault), machine.ip ≤ program.size →
      ((Execution.run settings program keep machine).result = .error fault ↔
        (∃ count < settings.stepLimit, ∃ middle : Machine, middle.ip < program.size ∧
          Follows settings.signRule signExtend image program count (machine.onImage program)
            (middle.onImage program) ∧
          Explains settings.signRule signExtend image program middle fault) ∨
        ∃ middle : Machine, middle.ip < program.size ∧
          Follows settings.signRule signExtend image program settings.stepLimit
            (machine.onImage program) (middle.onImage program) ∧
          fault = .stepLimitExceeded middle.ip settings.stepLimit)

theorem refinement {signExtend : Bool} {image : List UInt8} {program : Program}
    (decoded : Program.decode signExtend image = .ok program) :
    Refinement signExtend image program where
  step_succeeds := by
    intro rule machine last inside
    exact step_succeeds_iff decoded inside
  step_fails := by
    intro rule machine fault inside
    exact step_fails_iff decoded inside
  steps_succeed := by
    intro rule count machine last start
    exact steps_succeed_iff decoded start
  steps_fail := by
    intro rule count machine fault start
    exact steps_fail_iff decoded start
  run_succeeds := by
    intro settings keep machine last start
    exact run_succeeds_iff decoded start
  run_fails := by
    intro settings keep machine fault start
    exact run_fails_iff decoded start

/-- On the image of `sub cx, 1` and a `jnz` back to it, the first step leads to address 3. -/
theorem refinement_countdown :
    ∃ (program : Program) (last : Machine),
      Program.decode false [0x83, 0xE9, 0x01, 0x75, 0xFB] = .ok program ∧
        (Execution.step .nonZero program).LeadsTo .initial last ∧
        (step .nonZero false [0x83, 0xE9, 0x01, 0x75, 0xFB]).LeadsTo
          (Machine.initial.onImage program) (last.onImage program) ∧
        (last.onImage program).pc = 3 ∧
        Refinement false [0x83, 0xE9, 0x01, 0x75, 0xFB] program := by
  have started : ∃ program : Program,
      Program.decode false [0x83, 0xE9, 0x01, 0x75, 0xFB] = .ok program ∧ 0 < program.size ∧
        (Execution.step .nonZero program .initial).result = .ok () ∧
        (Execution.step .nonZero program .initial).state.ip = 1 ∧ program.address 1 = 3 :=
    ⟨_, Program.decode_eq_ok_iff.mpr
        ⟨[.arithmeticImmediate .sub (.register 1) (.short 1), .branch .jnz (-5)], by decide, rfl⟩,
      by decide, rfl, rfl, rfl⟩
  obtain ⟨program, decoded, inside, succeeded, next, third⟩ := started
  have stepped : (Execution.step .nonZero program).LeadsTo .initial
      (Execution.step .nonZero program .initial).state := ⟨succeeded, rfl⟩
  have moved := ((refinement decoded).step_succeeds .nonZero .initial _ inside).mp stepped
  have pc : ((Execution.step .nonZero program .initial).state.onImage program).pc = 3 := by
    simp [Machine.onImage, Machine.atPc, next, third]
  exact ⟨program, _, decoded, stepped, moved.1, pc, refinement decoded⟩

end ByteMachine

end Mini8086
