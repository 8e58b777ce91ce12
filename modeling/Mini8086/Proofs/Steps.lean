import Mini8086.Execution.Run
import Mini8086.Proofs.Address
import Mini8086.Proofs.AtIndex
import Mini8086.Proofs.Repetition

/-!
# Steps and runs

What one step does, and what a run is in terms of steps: a run repeats steps until the index is
behind the last instruction, a step fails, or the limit is used up, and exactly one of these happens
first.
-/

set_option autoImplicit false

namespace Mini8086

/-! ## Targets -/

theorem resolveJump_le_size {ι : Type} {length : ι → Nat} {items : Array ι} {index target : Nat}
    {offset : Int} (found : resolveJump length items index offset = .ok target) :
    target ≤ items.size := by
  by_cases inside : index < items.size
  · rcases Int.lt_or_le offset 0 with back | ahead
    · rw [resolveJump_backward inside back] at found
      obtain ⟨count, _, place⟩ := Stride.target_eq_ok_iff.mp found
      omega
    · rw [resolveJump_forward inside ahead] at found
      obtain ⟨count, landed, place⟩ := Stride.target_eq_ok_iff.mp found
      have few := (stride_eq_lands_iff.mp landed).1
      rw [List.length_drop, List.length_map, Array.length_toList] at few
      omega
  · rw [resolveJump_eq, if_pos (by omega)] at found
    cases found

namespace Execution

variable {rule : SignRule} {program : Program} {machine last : Machine} {fault : Fault}

theorem target_eq {index : Nat} (inside : index < program.size) (offset : Int) :
    target program index offset =
      (resolveJump Instruction.length program index offset).mapError
        (.invalidJumpTarget index) := by
  unfold target
  by_cases still : offset = 0
  · subst still
    rw [if_pos rfl, resolveJump_forward inside (Int.le_refl 0)]
    simp [Stride.target, Except.mapError]
  · rw [if_neg still]
    cases resolveJump Instruction.length program index offset <;> rfl

theorem target_fails_iff {index : Nat} {offset : Int} :
    target program index offset = .error fault ↔
      offset ≠ 0 ∧ ∃ cause,
        resolveJump Instruction.length program index offset = .error cause ∧
          .invalidJumpTarget index cause = fault := by
  unfold target
  by_cases still : offset = 0
  · simp [still]
  · rw [if_neg still]
    cases resolveJump Instruction.length program index offset <;> simp [still]

theorem target_le_size {index next : Nat} {offset : Int} (inside : index < program.size)
    (found : target program index offset = .ok next) : next ≤ program.size := by
  unfold target at found
  split at found
  · cases found
    exact inside
  · split at found
    · next resolved =>
      cases found
      exact resolveJump_le_size resolved
    · cases found

/-! ## One step -/

theorem step_of_none (missing : program[machine.ip]? = none) :
    step rule program machine = ⟨.error (noInstruction machine.ip), machine, []⟩ := by
  have known : ip machine = ⟨.ok machine.ip, machine, []⟩ := rfl
  rw [step, Transition.bind_of_ok _ known, missing]
  rfl

theorem step_of_some {instruction : Instruction}
    (found : program[machine.ip]? = some instruction) :
    step rule program machine =
      match instruction.execute rule machine with
      | ⟨.error fault, last, events⟩ => ⟨.error fault, last, events⟩
      | ⟨.ok offset, last, events⟩ =>
        match target program machine.ip offset with
        | .error fault => ⟨.error fault, last, events⟩
        | .ok next => ⟨.ok (), last.atIndex next, events ++ [.advanced machine.ip next]⟩ := by
  have known : ip machine = ⟨.ok machine.ip, machine, []⟩ := rfl
  rw [step, Transition.bind_of_ok _ known, found]
  cases executed : instruction.execute rule machine with
  | mk result last events =>
    cases result with
    | error fault =>
      simp [Transition.bind_of_error _ executed]
    | ok offset =>
      simp only [Transition.bind_of_ok _ executed]
      cases aimed : target program machine.ip offset with
      | error fault => simp [Transition.bind_apply]
      | ok next => simp [Transition.bind_apply, Machine.atIndex]

section Found

variable {instruction : Instruction} (found : program[machine.ip]? = some instruction)

include found

theorem step_leadsTo_iff :
    (step rule program).LeadsTo machine last ↔
      ∃ offset next, (instruction.execute rule machine).result = .ok offset ∧
        target program machine.ip offset = .ok next ∧
        (instruction.execute rule machine).state.atIndex next = last := by
  unfold Transition.LeadsTo
  rw [step_of_some found]
  obtain ⟨result, state, events⟩ := instruction.execute rule machine
  cases result with
  | error fault => simp
  | ok offset =>
    cases aimed : target program machine.ip offset with
    | error fault => simp [aimed]
    | ok next => simp [aimed]

theorem result_step_eq_error_iff :
    (step rule program machine).result = .error fault ↔
      (instruction.execute rule machine).result = .error fault ∨
        ∃ offset, (instruction.execute rule machine).result = .ok offset ∧
          target program machine.ip offset = .error fault := by
  rw [step_of_some found]
  obtain ⟨result, state, events⟩ := instruction.execute rule machine
  cases result with
  | error fault => simp
  | ok offset =>
    cases aimed : target program machine.ip offset with
    | error fault => simp [aimed]
    | ok next => simp [aimed]

end Found

theorem ip_lt_size_of_step (stepped : (step rule program).LeadsTo machine last) :
    machine.ip < program.size := by
  by_contra outside
  have missing : program[machine.ip]? = none := by simp; omega
  exact stepped.not_error _ (by rw [step_of_none missing])

theorem executed_of_step (stepped : (step rule program).LeadsTo machine last) :
    ∃ instruction offset next, program[machine.ip]? = some instruction ∧
      (instruction.execute rule machine).result = .ok offset ∧
      target program machine.ip offset = .ok next ∧
      (instruction.execute rule machine).state.atIndex next = last := by
  have found := Array.getElem?_eq_getElem (ip_lt_size_of_step stepped)
  obtain ⟨offset, next, executed⟩ := (step_leadsTo_iff found).mp stepped
  exact ⟨_, offset, next, found, executed⟩

theorem ip_le_size_of_step (stepped : (step rule program).LeadsTo machine last) :
    last.ip ≤ program.size := by
  obtain ⟨_, offset, next, _, _, aimed, rfl⟩ := executed_of_step stepped
  exact target_le_size (ip_lt_size_of_step stepped) aimed

theorem ip_le_size_of_steps (start : machine.ip ≤ program.size) {count : Nat}
    (stepped : ((step rule program).times count).LeadsTo machine last) :
    last.ip ≤ program.size := by
  induction count generalizing machine with
  | zero =>
    rw [Transition.times_zero_leadsTo_iff] at stepped
    rwa [← stepped]
  | succ count ih =>
    obtain ⟨next, first, others⟩ := Transition.times_succ_leadsTo_iff.mp stepped
    exact ih (ip_le_size_of_step first) others

/-! ## Runs -/

theorem keepEvents_eq (keep : ExecutionEvent → Bool) (events kept : List ExecutionEvent) :
    keepEvents keep events kept = (events.filter keep).reverse ++ kept := by
  unfold keepEvents
  induction events generalizing kept with
  | nil => rfl
  | cons event others ih =>
    rw [List.foldl_cons, ih]
    by_cases keeps : keep event
    · simp [keeps]
    · simp [keeps]

section Runs

variable {keep : ExecutionEvent → Bool} {kept events : List ExecutionEvent}
  {taken remaining count : Nat}

theorem runFrom_of_behind (behind : program.size ≤ machine.ip) :
    runFrom rule program keep taken remaining kept machine =
      ⟨.ok (), machine, kept.reverse ++ [.halted taken].filter keep⟩ := by
  rw [runFrom.eq_def, if_neg (by omega), keepEvents_eq]
  simp

theorem runFrom_zero (inside : machine.ip < program.size) :
    runFrom rule program keep taken 0 kept machine =
      ⟨.error (.stepLimitExceeded machine.ip taken), machine, kept.reverse⟩ := by
  rw [runFrom.eq_def, if_pos inside]

theorem runFrom_of_step {next : Machine}
    (stepped : step rule program machine = ⟨.ok (), next, events⟩) :
    runFrom rule program keep taken (remaining + 1) kept machine =
      runFrom rule program keep (taken + 1) remaining ((events.filter keep).reverse ++ kept)
        next := by
  have inside := ip_lt_size_of_step (Transition.leadsTo_iff_exists.mpr ⟨events, stepped⟩)
  rw [runFrom.eq_def, if_pos inside]
  simp only [stepped, keepEvents_eq]

theorem runFrom_of_fault (inside : machine.ip < program.size)
    (stopped : step rule program machine = ⟨.error fault, last, events⟩) :
    runFrom rule program keep taken (remaining + 1) kept machine =
      ⟨.error fault, last, kept.reverse ++ events.filter keep⟩ := by
  rw [runFrom.eq_def, if_pos inside]
  simp [stopped, keepEvents_eq]

/-- A run starts with the steps that it can take. -/
theorem runFrom_of_steps
    (stepped : (step rule program).times count machine = ⟨.ok (), last, events⟩) :
    runFrom rule program keep taken (count + remaining) kept machine =
      runFrom rule program keep (taken + count) remaining ((events.filter keep).reverse ++ kept)
        last := by
  induction count generalizing machine taken kept events with
  | zero =>
    cases stepped
    simp
  | succ count ih =>
    obtain ⟨_, next, earlier, later, first, others, rfl⟩ := Transition.bind_eq_ok_iff.mp stepped
    have room : count + 1 + remaining = count + remaining + 1 := by omega
    rw [room, runFrom_of_step first, ih others, List.filter_append, List.reverse_append,
      List.append_assoc]
    congr 1
    omega

end Runs

section Run

variable {settings : RunSettings} {keep : ExecutionEvent → Bool} {count : Nat}
  {events : List ExecutionEvent}

theorem run_of_beyond (beyond : program.size < machine.ip) :
    run settings program keep machine = ⟨.error (noInstruction machine.ip), machine, []⟩ := by
  unfold run
  rw [if_pos beyond]

theorem run_eq_runFrom (start : machine.ip ≤ program.size) :
    run settings program keep machine =
      runFrom settings.signRule program keep 0 settings.stepLimit
        ([.started program.size].filter keep).reverse machine := by
  unfold run
  rw [if_neg (by omega), keepEvents_eq, List.append_nil]

theorem run_of_steps (start : machine.ip ≤ program.size) {remaining : Nat}
    (enough : count + remaining = settings.stepLimit)
    (stepped : (step settings.signRule program).times count machine = ⟨.ok (), last, events⟩) :
    run settings program keep machine =
      runFrom settings.signRule program keep count remaining
        ((ExecutionEvent.started program.size :: events).filter keep).reverse last := by
  rw [run_eq_runFrom start, ← enough, runFrom_of_steps stepped, ← List.reverse_append,
    ← List.filter_append, Nat.zero_add]
  rfl

theorem run_of_halt (start : machine.ip ≤ program.size) (few : count ≤ settings.stepLimit)
    (stepped : (step settings.signRule program).times count machine = ⟨.ok (), last, events⟩)
    (behind : program.size ≤ last.ip) :
    run settings program keep machine =
      ⟨.ok (), last,
        (.started program.size :: events ++ [ExecutionEvent.halted count]).filter keep⟩ := by
  rw [run_of_steps start (Nat.add_sub_of_le few) stepped, runFrom_of_behind behind,
    List.reverse_reverse, List.filter_append]

theorem run_of_fault (start : machine.ip ≤ program.size) (few : count < settings.stepLimit)
    {middle : Machine} {later : List ExecutionEvent}
    (stepped : (step settings.signRule program).times count machine = ⟨.ok (), middle, events⟩)
    (inside : middle.ip < program.size)
    (stopped : step settings.signRule program middle = ⟨.error fault, last, later⟩) :
    run settings program keep machine =
      ⟨.error fault, last,
        (ExecutionEvent.started program.size :: events ++ later).filter keep⟩ := by
  have enough : count + (settings.stepLimit - (count + 1) + 1) = settings.stepLimit := by omega
  rw [run_of_steps start enough stepped, runFrom_of_fault inside stopped, List.reverse_reverse,
    List.filter_append]

theorem run_of_limit (start : machine.ip ≤ program.size)
    (stepped : (step settings.signRule program).times settings.stepLimit machine =
      ⟨.ok (), last, events⟩) (inside : last.ip < program.size) :
    run settings program keep machine =
      ⟨.error (.stepLimitExceeded last.ip settings.stepLimit), last,
        (ExecutionEvent.started program.size :: events).filter keep⟩ := by
  rw [run_of_steps start (Nat.add_zero _) stepped, runFrom_zero inside, List.reverse_reverse]

/-- Steps end behind the program, or stop with a fault, or use up the limit. -/
theorem steps_trichotomy (rule : SignRule) (program : Program) (limit : Nat) (machine : Machine) :
    (∃ count ≤ limit, ∃ last, ((step rule program).times count).LeadsTo machine last ∧
        program.size ≤ last.ip) ∨
      (∃ count < limit, ∃ middle, ((step rule program).times count).LeadsTo machine middle ∧
        middle.ip < program.size ∧ ∃ fault, (step rule program middle).result = .error fault) ∨
      ∃ last, ((step rule program).times limit).LeadsTo machine last ∧
        last.ip < program.size := by
  -- The first step decides; if it succeeds, the steps behind it do, with one less to go.
  induction limit generalizing machine with
  | zero =>
    rcases Nat.lt_or_ge machine.ip program.size with inside | behind
    · exact .inr (.inr ⟨machine, by simp, inside⟩)
    · exact .inl ⟨0, Nat.le_refl 0, machine, by simp, behind⟩
  | succ limit ih =>
    rcases Nat.lt_or_ge machine.ip program.size with inside | behind
    · rcases Transition.result_eq_ok_or_error (step rule program) machine with
        ⟨next, first⟩ | failed
      · rcases ih next with ⟨count, few, last, others, behind⟩ |
          ⟨count, few, middle, others, within, stopped⟩ | ⟨last, others, within⟩
        · exact .inl ⟨count + 1, Nat.succ_le_succ few, last,
            Transition.times_succ_leadsTo_iff.mpr ⟨next, first, others⟩, behind⟩
        · exact .inr (.inl ⟨count + 1, Nat.succ_lt_succ few, middle,
            Transition.times_succ_leadsTo_iff.mpr ⟨next, first, others⟩, within, stopped⟩)
        · exact .inr (.inr ⟨last,
            Transition.times_succ_leadsTo_iff.mpr ⟨next, first, others⟩, within⟩)
      · exact .inr (.inl ⟨0, Nat.succ_pos limit, machine, by simp, inside, failed⟩)
    · exact .inl ⟨0, Nat.zero_le _, machine, by simp, behind⟩

theorem run_leadsTo_of_halt (start : machine.ip ≤ program.size) (few : count ≤ settings.stepLimit)
    (stepped : ((step settings.signRule program).times count).LeadsTo machine last)
    (behind : program.size ≤ last.ip) : (run settings program keep).LeadsTo machine last := by
  obtain ⟨events, steps⟩ := Transition.leadsTo_iff_exists.mp stepped
  exact Transition.leadsTo_iff_exists.mpr ⟨_, run_of_halt start few steps behind⟩

theorem result_run_of_fault (start : machine.ip ≤ program.size) (few : count < settings.stepLimit)
    {middle : Machine}
    (stepped : ((step settings.signRule program).times count).LeadsTo machine middle)
    (inside : middle.ip < program.size)
    (stopped : (step settings.signRule program middle).result = .error fault) :
    (run settings program keep machine).result = .error fault := by
  obtain ⟨events, steps⟩ := Transition.leadsTo_iff_exists.mp stepped
  rw [run_of_fault start few steps inside (Transition.eq_of_result_error stopped)]

theorem result_run_of_limit (start : machine.ip ≤ program.size)
    (stepped : ((step settings.signRule program).times settings.stepLimit).LeadsTo machine last)
    (inside : last.ip < program.size) :
    (run settings program keep machine).result =
      .error (.stepLimitExceeded last.ip settings.stepLimit) := by
  obtain ⟨events, steps⟩ := Transition.leadsTo_iff_exists.mp stepped
  rw [run_of_limit start steps inside]

theorem run_leadsTo_iff (start : machine.ip ≤ program.size) :
    (run settings program keep).LeadsTo machine last ↔
      ∃ count ≤ settings.stepLimit,
        ((step settings.signRule program).times count).LeadsTo machine last ∧
          last.ip = program.size := by
  constructor
  · intro ended
    rcases steps_trichotomy settings.signRule program settings.stepLimit machine with
      ⟨count, few, finish, stepped, behind⟩ |
      ⟨count, few, middle, stepped, inside, fault, stopped⟩ | ⟨middle, stepped, inside⟩
    · have same := ended.unique (run_leadsTo_of_halt start few stepped behind)
      subst same
      exact ⟨count, few, stepped, Nat.le_antisymm (ip_le_size_of_steps start stepped) behind⟩
    · exact absurd (result_run_of_fault start few stepped inside stopped) (ended.not_error fault)
    · exact absurd (result_run_of_limit start stepped inside) (ended.not_error _)
  · intro halts
    obtain ⟨count, few, stepped, behind⟩ := halts
    exact run_leadsTo_of_halt start few stepped (Nat.le_of_eq behind.symm)

theorem result_run_eq_error_iff (start : machine.ip ≤ program.size) :
    (run settings program keep machine).result = .error fault ↔
      (∃ count < settings.stepLimit, ∃ middle,
        ((step settings.signRule program).times count).LeadsTo machine middle ∧
          middle.ip < program.size ∧
          (step settings.signRule program middle).result = .error fault) ∨
      ∃ middle, ((step settings.signRule program).times settings.stepLimit).LeadsTo machine middle ∧
        middle.ip < program.size ∧
        fault = .stepLimitExceeded middle.ip settings.stepLimit := by
  constructor
  · intro failed
    rcases steps_trichotomy settings.signRule program settings.stepLimit machine with
      ⟨count, few, finish, stepped, behind⟩ |
      ⟨count, few, middle, stepped, inside, first, stopped⟩ | ⟨middle, stepped, inside⟩
    · exact absurd failed ((run_leadsTo_of_halt start few stepped behind).not_error fault)
    · rw [result_run_of_fault start few stepped inside stopped] at failed
      cases failed
      exact .inl ⟨count, few, middle, stepped, inside, stopped⟩
    · rw [result_run_of_limit start stepped inside] at failed
      cases failed
      exact .inr ⟨middle, stepped, inside, rfl⟩
  · intro reason
    rcases reason with
      ⟨count, few, middle, stepped, inside, stopped⟩ | ⟨middle, stepped, inside, rfl⟩
    · exact result_run_of_fault start few stepped inside stopped
    · exact result_run_of_limit start stepped inside

end Run

end Execution
end Mini8086
