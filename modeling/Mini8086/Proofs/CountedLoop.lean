import Mini8086.Proofs.Atomicity
import Mini8086.Proofs.RoundTrip
import Mini8086.Proofs.RuntimeFaults
import Mini8086.Proofs.StraightLine

/-!
# Counted loops

A body is closed by a decrement of `cx` and a jump back that is taken until `cx` is zero.  Main
statement, `CountedLoop.counted_run`: a body that goes straight on and leaves `cx` alone is executed
as often as `cx` says, 65536 times when it starts at zero, and the run succeeds exactly when the
step limit leaves room for all these rounds.
-/

set_option autoImplicit false

namespace Mini8086

/-! ## Jumps back over whole items -/

theorem stride_append {front : List Nat} (positive : ∀ length ∈ front, 0 < length)
    (behind : List Nat) : stride (front ++ behind) front.sum = .lands front.length := by
  induction front with
  | nil => simp
  | cons length others ih =>
    obtain ⟨some_length, rest⟩ := List.forall_mem_cons.mp positive
    rw [List.cons_append, List.sum_cons, stride_cons _ _ (by omega), if_neg (by omega),
      Nat.add_sub_cancel_left, ih rest]
    rfl

/-- The last item of a row jumps back over items that all have a length to the first of these,
whatever stands in front. -/
theorem resolveJump_over {ι : Type} {length : ι → Nat} (front : List ι) {passed : List ι}
    (advances : ∀ item ∈ passed, 0 < length item) (some_passed : passed ≠ []) :
    resolveJump length (front ++ passed).toArray (front.length + passed.length - 1)
      (-((passed.map length).sum : Int)) = .ok front.length := by
  have count := List.length_pos_iff.mpr some_passed
  have size : (front ++ passed).toArray.size = front.length + passed.length := by simp
  have distance : 0 < (passed.map length).sum := by
    obtain ⟨item, others, rfl⟩ := List.exists_cons_of_ne_nil some_passed
    have first := advances item List.mem_cons_self
    rw [List.map_cons, List.sum_cons]
    omega
  have positive : ∀ size ∈ (passed.map length).reverse, 0 < size := by
    intro size member
    obtain ⟨item, listed, rfl⟩ := List.mem_map.mp (List.mem_reverse.mp member)
    exact advances item listed
  have next : front.length + passed.length - 1 + 1 = (front ++ passed).length := by
    rw [List.length_append]
    omega
  have walked := stride_append positive (front.map length).reverse
  rw [List.sum_reverse, List.length_reverse, List.length_map] at walked
  rw [resolveJump_backward (by omega) (by omega), next, Int.natAbs_neg, Int.natAbs_natCast,
    List.take_of_length_le (by simp), List.map_append, List.reverse_append, walked,
    Stride.target, List.length_append, Nat.add_sub_cancel]

namespace CountedLoop

/-! ## The loop -/

def decrement : Instruction :=
  ⟨.arithmetic .sub, .register (.word .cx), some (.immediate (.ofWord 1)), 3⟩

/-- The bytes from the start of the body to the end of the jump. -/
def span (body : List Instruction) : Nat :=
  (body.map Instruction.length).sum + 5

def jumpBack (body : List Instruction) : Instruction :=
  ⟨.branch .jnz, .relative (Int8.ofInt (-(span body : Int))), none, 2⟩

def program (before body : List Instruction) : Program :=
  (before ++ body ++ [decrement, jumpBack body]).toArray

/-- How often the body is executed: a counter of zero wraps around first. -/
def rounds (counter : UInt16) : Nat :=
  if counter = 0 then 65536 else counter.toNat

/-- What may stand in the body: a decoded instruction that is no `jnz`, has no operand that cannot
be accessed, and stores nothing in `cx`, `cl` or `ch`. -/
structure InBody (instruction : Instruction) : Prop where
  decoded : ∃ signExtend input, Instruction.decodeOne signExtend input = .ok instruction
  not_jnz : instruction.mnemonic ≠ .branch .jnz
  not_based : ∀ operation base displacement width, instruction.mnemonic = .data operation →
    Operand.memory ⟨.based base, displacement, width⟩ ∉ instruction.operands
  not_past_end : Operand.memory ⟨.direct 0xFFFF, 0, .word⟩ ∉ instruction.operands
  keeps : instruction.Keeps .cx

theorem InBody.fallsThrough {instruction : Instruction} (allowed : InBody instruction) :
    instruction.FallsThrough where
  fine := by
    intro index
    obtain ⟨signExtend, input, decoded⟩ := allowed.decoded
    have wellFormed := Instruction.wellFormed_of_decodeOne decoded
    cases failed : instruction.fault? index with
    | none => rfl
    | some fault =>
      obtain ⟨⟨operation, named⟩, operand, listed, faulty⟩ :=
        wellFormed.fault?_eq_some_iff.mp failed
      cases faulty with
      | registerBased base displacement width =>
        exact absurd listed (allowed.not_based operation base displacement width named)
      | endOfMemory => exact absurd listed allowed.not_past_end
  still := Instruction.distance_of_not_jnz allowed.not_jnz

theorem InBody.length_pos {instruction : Instruction} (allowed : InBody instruction) :
    0 < instruction.length := by
  obtain ⟨signExtend, input, decoded⟩ := allowed.decoded
  obtain ⟨encoding, _, rfl⟩ := Instruction.decodeOne_eq_ok_iff.mp decoded
  have bounds := encoding.length_bounds
  exact Nat.lt_of_lt_of_le Nat.zero_lt_two bounds.1

theorem fallsThrough_decrement : decrement.FallsThrough where
  fine _ := rfl
  still _ := rfl

theorem get_decrement (rule : SignRule) (machine : Machine) :
    (decrement.execute rule machine).state.registers.get .cx =
      machine.registers.get .cx - 1 := rfl

theorem flags_decrement (rule : SignRule) (machine : Machine) :
    (decrement.execute rule machine).state.flags =
      .ofResult rule (machine.registers.get .cx - 1) .word := rfl

theorem flags_of_zero (rule : SignRule) : Flags.ofResult rule 0 .word = ⟨true, false⟩ := by
  cases rule <;> decide

section Program

variable (before body : List Instruction)

theorem program_eq : program before body =
    (before ++ (body ++ [decrement, jumpBack body])).toArray := by
  rw [program, List.append_assoc]

theorem size_program : (program before body).size = before.length + (body.length + 2) := by
  rw [program_eq, List.size_toArray, List.length_append, List.length_append]
  rfl

theorem round_placed :
    body ++ [decrement] <+: (program before body).toList.drop before.length := by
  rw [program_eq, List.drop_left]
  exact ⟨[jumpBack body], by simp⟩

theorem jump_placed :
    (program before body)[before.length + (body.length + 1)]? = some (jumpBack body) := by
  rw [program_eq, List.getElem?_toArray, List.getElem?_append_right (Nat.le_add_right _ _),
    Nat.add_sub_cancel_left, List.getElem?_append_right (Nat.le_add_right _ _),
    Nat.add_sub_cancel_left]
  rfl

end Program

theorem distance_jumpBack {body : List Instruction} (short : span body ≤ 128) {machine : Machine}
    (taken : machine.flags.zero = false) :
    (jumpBack body).distance machine = -(span body : Int) := by
  have fits : (Int8.ofInt (-(span body : Int))).toInt = -(span body : Int) :=
    Int8.toInt_ofInt_of_le (by omega) (by omega)
  rw [Instruction.distance_of_taken rfl taken rfl, fits]

section Loop

variable {before body : List Instruction} {machine : Machine}

theorem target_jumpBack (allowed : ∀ instruction ∈ body, InBody instruction) :
    Execution.target (program before body) (before.length + (body.length + 1))
      (-(span body : Int)) = .ok before.length := by
  have advances : ∀ instruction ∈ body ++ [decrement, jumpBack body], 0 < instruction.length := by
    intro instruction member
    rcases List.mem_append.mp member with listed | closing
    · exact (allowed instruction listed).length_pos
    · rcases List.mem_pair.mp closing with rfl | rfl
      · exact Nat.zero_lt_succ 2
      · exact Nat.zero_lt_two
  have inside : before.length + (body.length + 1) < (program before body).size := by
    rw [size_program]
    omega
  have passed : ((body ++ [decrement, jumpBack body]).map Instruction.length).sum = span body := by
    rw [List.map_append, List.sum_append]
    rfl
  have place : before.length + (body ++ [decrement, jumpBack body]).length - 1 =
      before.length + (body.length + 1) := by
    rw [List.length_append]
    rfl
  have resolved := resolveJump_over before advances (by simp)
  rw [passed, place, ← program_eq] at resolved
  rw [Execution.target_eq inside, resolved]
  rfl

theorem fallsThrough_round (allowed : ∀ instruction ∈ body, InBody instruction) :
    ∀ instruction ∈ body ++ [decrement], instruction.FallsThrough := by
  intro instruction member
  rcases List.mem_append.mp member with listed | closing
  · exact (allowed instruction listed).fallsThrough
  · rw [List.mem_singleton.mp closing]
    exact fallsThrough_decrement

/-- The body leaves the counter alone, so after a round the counter and the flags are what the
decrement makes of them. -/
theorem counter_of_round {rule : SignRule} {next : Machine}
    (allowed : ∀ instruction ∈ body, InBody instruction)
    (executed : (Execution.sequence rule (body ++ [decrement])).LeadsTo machine next) :
    next.registers.get .cx = machine.registers.get .cx - 1 ∧
      next.flags = .ofResult rule (next.registers.get .cx) .word := by
  obtain ⟨middle, through, closing⟩ := Execution.sequence_append_leadsTo_iff.mp executed
  obtain ⟨distance, _, nothing⟩ := Execution.sequence_cons_leadsTo_iff.mp closing
  rw [Execution.sequence_nil_leadsTo_iff] at nothing
  have kept : middle.registers.get .cx = machine.registers.get .cx :=
    Execution.get_of_sequence (fun instruction listed => (allowed instruction listed).fallsThrough)
      (fun instruction listed => (allowed instruction listed).keeps) through
  have counter : next.registers.get .cx = machine.registers.get .cx - 1 := by
    rw [← nothing, get_decrement, kept]
  refine ⟨counter, ?_⟩
  rw [counter, ← nothing, flags_decrement, kept]

/-! ## Rounds -/

/-- `next` is the machine after `count` rounds, executed one after the other. Stepping through the
program does the same and moves the index, back to the body or, with the counter at zero, behind the
program. -/
structure Rounds (rule : SignRule) (before body : List Instruction) (count : Nat)
    (machine next : Machine) : Prop where
  executed : ((Execution.sequence rule (body ++ [decrement])).times count).LeadsTo machine next
  counter : next.registers.get .cx = machine.registers.get .cx - UInt16.ofNat count
  flags : next.flags = .ofResult rule (next.registers.get .cx) .word
  ip : next.ip = before.length
  stepped : ((Execution.step rule (program before body)).times
      (count * (body.length + 2))).LeadsTo machine
    (next.atIndex
      (if next.registers.get .cx = 0 then (program before body).size else before.length))

theorem Rounds.trans {rule : SignRule} {count more : Nat} {middle last : Machine}
    (first : Rounds rule before body count machine middle)
    (goes_on : middle.registers.get .cx ≠ 0)
    (others : Rounds rule before body more middle last) :
    Rounds rule before body (count + more) machine last where
  executed := Transition.times_add_leadsTo_iff.mpr ⟨middle, first.executed, others.executed⟩
  counter := by
    rw [others.counter, first.counter, UInt16.ofNat_add]
    exact sub_sub _ _ _
  flags := others.flags
  ip := others.ip
  stepped := by
    have back := first.stepped
    rw [if_neg goes_on, ← first.ip] at back
    rw [Nat.add_mul]
    exact Transition.times_add_leadsTo_iff.mpr ⟨middle, back, others.stepped⟩

theorem rounds_pos (counter : UInt16) : 0 < rounds counter := by
  unfold rounds
  split
  · exact Nat.zero_lt_succ 65535
  · next some_counter =>
    apply Nat.pos_of_ne_zero
    intro zero
    exact some_counter (UInt16.toNat_inj.mp zero)

theorem counter_eq_zero_iff {counter : UInt16} {count : Nat} (some_rounds : 0 < count)
    (few : count ≤ rounds counter) : counter - UInt16.ofNat count = 0 ↔ count = rounds counter := by
  have small := counter.toNat_lt
  have zero : (0 : UInt16).toNat = 0 := rfl
  rw [← UInt16.toNat_inj, UInt16.toNat_sub, UInt16.toNat_ofNat', zero]
  unfold rounds at few ⊢
  by_cases wraps : counter = 0
  · subst wraps
    rw [if_pos rfl] at few ⊢
    omega
  · rw [if_neg wraps] at few ⊢
    omega

theorem Rounds.goes_on {rule : SignRule} {count : Nat} {middle : Machine}
    (earlier : Rounds rule before body count machine middle) (some_rounds : 0 < count)
    (few : count < rounds (machine.registers.get .cx)) : middle.registers.get .cx ≠ 0 := by
  rw [earlier.counter]
  intro zero
  have last := (counter_eq_zero_iff some_rounds (Nat.le_of_lt few)).mp zero
  omega

section Running

variable (rule : SignRule) (allowed : ∀ instruction ∈ body, InBody instruction)
  (short : span body ≤ 128)

include allowed

theorem exists_inside_round (start : machine.ip = before.length) {count : Nat}
    (few : count < body.length + 2) :
    ∃ middle, ((Execution.step rule (program before body)).times count).LeadsTo machine middle ∧
      middle.ip = before.length + count := by
  have front : ∀ instruction ∈ (body ++ [decrement]).take count, instruction.FallsThrough :=
    fun instruction member =>
      fallsThrough_round allowed instruction (List.mem_of_mem_take member)
  have placed : (body ++ [decrement]).take count <+:
      (program before body).toList.drop machine.ip := by
    rw [start]
    exact (List.take_prefix _ _).trans (round_placed before body)
  have taken : ((body ++ [decrement]).take count).length = count := by
    rw [List.length_take, List.length_append, List.length_singleton]
    omega
  have ran : ∃ last, (Execution.sequence rule ((body ++ [decrement]).take count)).LeadsTo machine
      last := Execution.exists_sequence front machine
  obtain ⟨last, executed⟩ := ran
  have stepped := Execution.steps_of_sequence front placed executed
  rw [taken, start] at stepped
  exact ⟨_, stepped, rfl⟩

include short

theorem step_jumpBack (at_jump : machine.ip = before.length + (body.length + 1)) :
    (Execution.step rule (program before body)).LeadsTo machine
      (machine.atIndex
        (if machine.flags.zero then (program before body).size else before.length)) := by
  have found : (program before body)[machine.ip]? = some (jumpBack body) := by
    rw [at_jump, jump_placed]
  have named : (jumpBack body).mnemonic = .branch .jnz := rfl
  have executed := (Instruction.result_execute_eq_ok_iff rule).mpr
    ⟨Instruction.fault?_of_branch named machine.ip, rfl⟩
  have still := Execution.state_execute_of_branch rule named machine
  refine (Execution.step_leadsTo_iff found).mpr ⟨_, _, executed, ?_, by rw [still]⟩
  cases zero : machine.flags.zero with
  | true =>
    have behind : (jumpBack body).distance machine = 0 := by
      rw [Instruction.distance, named]
      exact if_pos zero
    rw [behind, if_pos rfl, size_program, at_jump]
    rfl
  | false =>
    rw [distance_jumpBack short zero, at_jump]
    exact target_jumpBack allowed

theorem exists_round (start : machine.ip = before.length) :
    ∃ next, Rounds rule before body 1 machine next := by
  have goOn := fallsThrough_round allowed
  obtain ⟨next, executed⟩ := Execution.exists_sequence goOn machine
  obtain ⟨counter, flags⟩ := counter_of_round allowed executed
  have placed : body ++ [decrement] <+: (program before body).toList.drop machine.ip := by
    rw [start]
    exact round_placed before body
  have walked := Execution.steps_of_sequence goOn placed executed
  have closed : (body ++ [decrement]).length = body.length + 1 := List.length_append
  rw [closed, start] at walked
  -- Stepping has come to the jump, which looks at the flag that the decrement has set.
  have at_jump : (next.atIndex (before.length + (body.length + 1))).ip =
      before.length + (body.length + 1) := rfl
  have jumped := step_jumpBack rule allowed short at_jump
  have tested : (next.atIndex (before.length + (body.length + 1))).flags.zero =
      (next.registers.get .cx == 0) := by
    rw [Machine.atIndex, flags]
    rfl
  simp only [tested, beq_iff_eq] at jumped
  have stepped := Transition.times_add_leadsTo_iff.mpr
    ⟨_, walked, Transition.times_one_leadsTo_iff.mpr jumped⟩
  refine ⟨next, Transition.times_one_leadsTo_iff.mpr executed, counter, flags, ?_, ?_⟩
  · exact (Execution.ip_of_sequence executed).trans start
  · rw [Nat.one_mul]
    exact stepped

/-- As many rounds are gone through as the counter says: every one but the last leaves the counter
above zero and ends in front of the body again. -/
theorem exists_rounds (start : machine.ip = before.length) {count : Nat}
    (few : count < rounds (machine.registers.get .cx)) :
    ∃ next, Rounds rule before body (count + 1) machine next := by
  induction count with
  | zero => exact exists_round rule allowed short start
  | succ count ih =>
    obtain ⟨middle, earlier⟩ := ih (by omega)
    obtain ⟨next, round⟩ := exists_round rule allowed short earlier.ip
    exact ⟨next, earlier.trans (earlier.goes_on (Nat.succ_pos count) few) round⟩

theorem exists_inside_rounds (start : machine.ip = before.length) {count : Nat}
    (few : count < rounds (machine.registers.get .cx) * (body.length + 2)) :
    ∃ middle, ((Execution.step rule (program before body)).times count).LeadsTo machine middle ∧
      middle.ip = before.length + count % (body.length + 2) := by
  have room : 0 < body.length + 2 := Nat.succ_pos _
  have whole : count / (body.length + 2) < rounds (machine.registers.get .cx) :=
    (Nat.div_lt_iff_lt_mul room).mpr few
  have front : ∃ middle, ((Execution.step rule (program before body)).times
      (count / (body.length + 2) * (body.length + 2))).LeadsTo machine middle ∧
        middle.ip = before.length := by
    cases taken : count / (body.length + 2) with
    | zero =>
      rw [Nat.zero_mul]
      exact ⟨machine, Transition.times_zero_leadsTo_iff.mpr rfl, start⟩
    | succ fewer =>
      rw [taken] at whole
      obtain ⟨next, earlier⟩ := exists_rounds rule allowed short start (Nat.lt_of_succ_lt whole)
      have back := earlier.stepped
      rw [if_neg (earlier.goes_on (Nat.succ_pos fewer) whole)] at back
      exact ⟨_, back, rfl⟩
  obtain ⟨middle, stepped, ip⟩ := front
  obtain ⟨last, others, reached⟩ := exists_inside_round rule allowed ip (Nat.mod_lt count room)
  have all := Transition.times_add_leadsTo_iff.mpr ⟨middle, stepped, others⟩
  rw [Nat.div_add_mod'] at all
  exact ⟨last, all, reached⟩

theorem exists_all_rounds (start : machine.ip = before.length) :
    ∃ last, Rounds rule before body (rounds (machine.registers.get .cx)) machine last ∧
      last.registers.get .cx = 0 := by
  have some_rounds := rounds_pos (machine.registers.get .cx)
  have last_round : rounds (machine.registers.get .cx) - 1 < rounds (machine.registers.get .cx) :=
    Nat.sub_lt some_rounds Nat.one_pos
  obtain ⟨last, all⟩ := exists_rounds rule allowed short start last_round
  rw [Nat.sub_add_cancel some_rounds] at all
  refine ⟨last, all, ?_⟩
  rw [all.counter]
  exact (counter_eq_zero_iff some_rounds (Nat.le_refl _)).mpr rfl

end Running

end Loop

/-! ## Runs -/

/-- What becomes of a run that starts at the loop, where `last` is the machine that executing the
body and the decrement in turn, as often as the counter says, ends in. -/
structure CountedRun (settings : RunSettings) (before body : List Instruction)
    (machine last : Machine) : Prop where
  executed : ((Execution.sequence settings.signRule (body ++ [decrement])).times
    (rounds (machine.registers.get .cx))).LeadsTo machine last
  counter : last.registers.get .cx = 0
  zero : last.flags.zero = true
  sign : last.flags.sign = false
  succeeds_iff : ∀ keep : ExecutionEvent → Bool,
    (∃ reached, (Execution.run settings (program before body) keep).LeadsTo machine reached) ↔
      rounds (machine.registers.get .cx) * (body.length + 2) ≤ settings.stepLimit
  reaches : ∀ keep : ExecutionEvent → Bool,
    rounds (machine.registers.get .cx) * (body.length + 2) ≤ settings.stepLimit →
      (Execution.run settings (program before body) keep).LeadsTo machine
        { last with ip := (program before body).size }
  exceeds : ∀ keep : ExecutionEvent → Bool,
    settings.stepLimit < rounds (machine.registers.get .cx) * (body.length + 2) →
      (Execution.run settings (program before body) keep machine).result =
        .error (.stepLimitExceeded
          (before.length + settings.stepLimit % (body.length + 2)) settings.stepLimit)

section Run

variable {settings : RunSettings} {before body : List Instruction} {machine last : Machine}
  (keep : ExecutionEvent → Bool)

theorem ip_le_size (start : machine.ip = before.length) :
    machine.ip ≤ (program before body).size := by
  rw [start, size_program]
  exact Nat.le_add_right _ _

theorem run_leadsTo_of_rounds (start : machine.ip = before.length)
    (all : Rounds settings.signRule before body (rounds (machine.registers.get .cx)) machine last)
    (counter : last.registers.get .cx = 0)
    (enough : rounds (machine.registers.get .cx) * (body.length + 2) ≤ settings.stepLimit) :
    (Execution.run settings (program before body) keep).LeadsTo machine
      { last with ip := (program before body).size } := by
  have ended := all.stepped
  rw [if_pos counter] at ended
  exact Execution.run_leadsTo_of_halt (ip_le_size start) enough ended (Nat.le_refl _)

theorem result_run_of_few_steps (allowed : ∀ instruction ∈ body, InBody instruction)
    (short : span body ≤ 128) (start : machine.ip = before.length)
    (few : settings.stepLimit < rounds (machine.registers.get .cx) * (body.length + 2)) :
    (Execution.run settings (program before body) keep machine).result =
      .error (.stepLimitExceeded
        (before.length + settings.stepLimit % (body.length + 2)) settings.stepLimit) := by
  obtain ⟨middle, stepped, ip⟩ :=
    exists_inside_rounds settings.signRule allowed short start few
  have inside : middle.ip < (program before body).size := by
    have within_round := Nat.mod_lt settings.stepLimit (Nat.succ_pos (body.length + 1))
    rw [ip, size_program]
    exact Nat.add_lt_add_left within_round _
  rw [Execution.result_run_of_limit (ip_le_size start) stepped inside, ip]

end Run

theorem counted_run (settings : RunSettings) (before body : List Instruction) (machine : Machine)
    (allowed : ∀ instruction ∈ body, InBody instruction) (short : span body ≤ 128)
    (start : machine.ip = before.length) :
    ∃ last, CountedRun settings before body machine last := by
  obtain ⟨last, all, counter⟩ := exists_all_rounds settings.signRule allowed short start
  have flags : last.flags = ⟨true, false⟩ := by
    rw [all.flags, counter, flags_of_zero]
  refine ⟨last, all.executed, counter, by rw [flags], by rw [flags], ?_, ?_, ?_⟩
  · intro keep
    constructor
    · intro succeeded
      obtain ⟨reached, run⟩ := succeeded
      by_contra low
      exact run.not_error _
        (result_run_of_few_steps keep allowed short start (Nat.lt_of_not_le low))
    · intro enough
      exact ⟨_, run_leadsTo_of_rounds keep start all counter enough⟩
  · intro keep enough
    exact run_leadsTo_of_rounds keep start all counter enough
  · intro keep few
    exact result_run_of_few_steps keep allowed short start few

theorem inBody_accumulate (value : UInt16) :
    InBody ⟨.arithmetic .add, .register (.word .ax), some (.immediate (.ofWord value)), 3⟩ where
  decoded := ⟨false, _, Instruction.decodeOne_eq_ok_iff.mpr
    ⟨.immediateToAccumulator .add (.word value), List.prefix_rfl, rfl⟩⟩
  not_jnz := nofun
  not_based := by simp [Instruction.operands]
  not_past_end := by simp [Instruction.operands]
  keeps := by
    intro operation register _ _ goes_to
    cases goes_to
    decide

/-- A loop that starts with its counter at zero ends after 65536 rounds. -/
theorem counted_run_of_zero :
    ∃ (before body : List Instruction) (machine last : Machine),
      before ≠ [] ∧ body ≠ [] ∧ machine.registers.get .cx = 0 ∧
        (∀ instruction ∈ body, InBody instruction) ∧ span body ≤ 128 ∧
        machine.ip = before.length ∧ CountedRun {} before body machine last ∧
        (Execution.run {} (program before body) fun _ => false).LeadsTo machine
          { last with ip := (program before body).size } := by
  have allowed : ∀ instruction ∈
      [Instruction.mk (.arithmetic .add) (.register (.word .ax))
        (some (.immediate (.ofWord 3))) 3], InBody instruction := by
    intro instruction member
    rw [List.mem_singleton.mp member]
    exact inBody_accumulate 3
  obtain ⟨last, ran⟩ := counted_run {}
    [⟨.mov, .register (.word .cx), some (.immediate (.ofWord 0)), 3⟩] _
    { Machine.initial with ip := 1 } allowed (by decide) rfl
  exact ⟨_, _, _, last, by simp, by simp, rfl, allowed, by decide, rfl, ran,
    ran.reaches _ (by decide)⟩

end CountedLoop
end Mini8086
