import Mini8086.Proofs.AccessLedger
import Mini8086.Proofs.BoundedRun

/-!
# The journal of a run

Requests to memory aside, a run opens its journal with the size of the program and adds two lines
for every step that succeeds: a remark at the index of the instruction, and the index that follows.
Only a run that comes to the end of the program adds how many steps it took.  Main statement,
`Execution.run_journaled`: the journal is these lines in this order, whatever ends the run, and its
finest lines lead from the first index to the last one.
-/

set_option autoImplicit false

namespace Mini8086

/-! ## Lines -/

namespace ExecutionEvent

def line (event : ExecutionEvent) : Level × String :=
  (event.level, event.message)

/-- The lines of a journal, requests to memory aside. -/
def lines (events : List ExecutionEvent) : List (Level × String) :=
  (events.filter fun event => event.access?.isNone).map line

@[simp]
theorem lines_append (earlier later : List ExecutionEvent) :
    lines (earlier ++ later) = lines earlier ++ lines later := by
  simp [lines]

theorem lines_of_no_access {event : ExecutionEvent} (nothing : event.access? = none) :
    lines [event] = [event.line] := by
  simp [lines, nothing]

@[simp]
theorem lines_accessed (accesses : List Access) : lines (accesses.map .accessed) = [] := by
  induction accesses with
  | nil => rfl
  | cons access others ih => exact ih

end ExecutionEvent

def remarkHeading (index : Nat) : String :=
  "ip " ++ index.repr ++ " | "

namespace ExecutionEvent

def Remarks (event : ExecutionEvent) (level : Level) (index : Nat) : Prop :=
  event.level = level ∧ ∃ details, event.message = remarkHeading index ++ details

section Remarks

variable (index : Nat) (instruction : Instruction)

theorem remarks_moved (result : UInt16) (flags : Flags) :
    (moved index instruction result flags).Remarks .debug index := by
  refine ⟨rfl, instruction.text ++ " | " ++ instruction.destination.text ++ " <- " ++
    Numeral.hex 4 result.toNat ++ " | flags " ++ flags.text, ?_⟩
  simp only [← String.append_assoc]
  rfl

theorem remarks_computed (before result : UInt16) (flags : Flags) :
    (computed index instruction before result flags).Remarks .debug index := by
  refine ⟨rfl, instruction.text ++ " | " ++ instruction.destination.text ++ ": " ++
    Numeral.hex 4 before.toNat ++ " -> " ++ Numeral.hex 4 result.toNat ++ " | flags " ++
    flags.text, ?_⟩
  simp only [← String.append_assoc]
  rfl

theorem remarks_tested (zero : Bool) (offset : Int) :
    (tested index instruction zero offset).Remarks .debug index := by
  refine ⟨rfl, instruction.text ++ " | zf=" ++ Numeral.bit zero ++ " -> offset " ++ offset.repr, ?_⟩
  simp only [← String.append_assoc]
  rfl

theorem remarks_skipped (jump : Branch) : (skipped index jump).Remarks .warn index := by
  refine ⟨rfl, jump.name ++ " has no execution semantics, skipping", ?_⟩
  simp only [← String.append_assoc]
  rfl

theorem Remarks.exists_line {event : ExecutionEvent} {level : Level} {index : Nat}
    (remarks : event.Remarks level index) :
    ∃ details, event.line = (level, remarkHeading index ++ details) := by
  obtain ⟨rfl, details, told⟩ := remarks
  exact ⟨details, by rw [line, told]⟩

end Remarks

end ExecutionEvent

namespace Instruction

/-- Jumps and loops that do nothing are warned of. -/
def remarkLevel (instruction : Instruction) : Level :=
  match instruction.mnemonic with
  | .data _ | .branch .jnz => .debug
  | .branch _ => .warn

theorem remarks_remark (rule : SignRule) (instruction : Instruction) (machine : Machine) :
    (instruction.remark rule machine).Remarks instruction.remarkLevel machine.ip := by
  unfold remark remarkLevel
  rcases instruction.mnemonic with (_ | operation) | jump
  · exact ExecutionEvent.remarks_moved _ _ _ _
  · exact ExecutionEvent.remarks_computed _ _ _ _ _
  · cases jump with
    | jnz => exact ExecutionEvent.remarks_tested _ _ _ _
    | _ => exact ExecutionEvent.remarks_skipped _ _

theorem lines_remark (rule : SignRule) (instruction : Instruction) (machine : Machine) :
    ∃ details, ExecutionEvent.lines [instruction.remark rule machine] =
      [(instruction.remarkLevel, remarkHeading machine.ip ++ details)] := by
  have nothing : (instruction.remark rule machine).access? = none := by
    simpa [ExecutionEvent.accesses] using ExecutionEvent.accesses_remark rule instruction machine
  obtain ⟨details, told⟩ := (instruction.remarks_remark rule machine).exists_line
  exact ⟨details, by rw [ExecutionEvent.lines_of_no_access nothing, told]⟩

end Instruction

/-! ## Steps and ends -/

def openingLine (program : Program) : Level × String :=
  (.info, "running program of " ++ program.size.repr ++ " instructions")

def advanceLine (index next : Nat) : Level × String :=
  (.trace, "ip " ++ index.repr ++ " -> " ++ next.repr)

def haltLine (steps : Nat) : Level × String :=
  (.info, "halted after " ++ steps.repr ++ " steps")

namespace Execution

/-- `Walk rule program count machine last lines`: so many steps lead from one machine to the other,
and each of them has left a remark and the index that follows it. -/
inductive Walk (rule : SignRule) (program : Program) :
    Nat → Machine → Machine → List (Level × String) → Prop where
  | stay (machine : Machine) : Walk rule program 0 machine machine []
  | step {count : Nat} {machine next last : Machine} {instruction : Instruction}
      {lines : List (Level × String)} (details : String)
      (found : program[machine.ip]? = some instruction)
      (stepped : (step rule program).LeadsTo machine next)
      (others : Walk rule program count next last lines) :
      Walk rule program (count + 1) machine last
        ((instruction.remarkLevel, remarkHeading machine.ip ++ details) ::
          advanceLine machine.ip next.ip :: lines)

/-- `Closing settings program count last ended lines`: what follows when so many steps have led to
a machine from which the run goes no further. -/
inductive Closing (settings : RunSettings) (program : Program) (count : Nat) (last : Machine) :
    Except Fault Machine → List (Level × String) → Prop where
  | halted (within : count ≤ settings.stepLimit) (behind : last.ip = program.size) :
      Closing settings program count last (.ok last) [haltLine count]
  | refused {instruction : Instruction} {fault : Fault} (within : count < settings.stepLimit)
      (found : program[last.ip]? = some instruction)
      (failed : (instruction.execute settings.signRule last).result = .error fault) :
      Closing settings program count last (.error fault) []
  | lost {instruction : Instruction} {displacement : Int8} {cause : JumpError} (details : String)
      (within : count < settings.stepLimit) (found : program[last.ip]? = some instruction)
      (jumps : instruction.mnemonic = .branch .jnz) (taken : last.flags.zero = false)
      (away : instruction.destination = .relative displacement)
      (unresolved : resolveJump Instruction.length program last.ip displacement.toInt =
        .error cause) :
      Closing settings program count last (.error (.invalidJumpTarget last.ip cause))
        [(.debug, remarkHeading last.ip ++ details)]
  | exhausted (all : count = settings.stepLimit) (inside : last.ip < program.size) :
      Closing settings program count last
        (.error (.stepLimitExceeded last.ip settings.stepLimit)) []

section Steps

variable {rule : SignRule} {program : Program} {machine next last : Machine}
  {instruction : Instruction} {fault : Fault} {events : List ExecutionEvent} {count : Nat}

theorem lines_of_step (found : program[machine.ip]? = some instruction)
    (stepped : step rule program machine = ⟨.ok (), next, events⟩) :
    ∃ details, ExecutionEvent.lines events =
      [(instruction.remarkLevel, remarkHeading machine.ip ++ details),
        advanceLine machine.ip next.ip] := by
  obtain ⟨details, told⟩ := instruction.lines_remark rule machine
  refine ⟨details, ?_⟩
  rw [step_of_some found] at stepped
  cases refused : instruction.fault? machine.ip with
  | some fault =>
    rw [Instruction.execute_of_fault rule refused] at stepped
    cases stepped
  | none =>
    rw [Instruction.execute_of_no_fault rule refused] at stepped
    simp only at stepped
    cases aimed : target program machine.ip (instruction.distance machine) with
    | error fault =>
      rw [aimed] at stepped
      cases stepped
    | ok place =>
      rw [aimed] at stepped
      cases stepped
      rw [ExecutionEvent.lines_append, ExecutionEvent.lines_append, ExecutionEvent.lines_accessed,
        told, ExecutionEvent.lines_of_no_access rfl]
      rfl

theorem walk_of_times
    (stepped : (step rule program).times count machine = ⟨.ok (), last, events⟩) :
    Walk rule program count machine last (ExecutionEvent.lines events) := by
  induction count generalizing machine events with
  | zero =>
    cases stepped
    exact .stay _
  | succ count ih =>
    -- Steps are counted from the front, where the lines of the first one stand.
    obtain ⟨_, next, earlier, later, first, others, rfl⟩ := Transition.bind_eq_ok_iff.mp stepped
    have leads := Transition.leadsTo_iff_exists.mpr ⟨earlier, first⟩
    have found := Array.getElem?_eq_getElem (ip_lt_size_of_step leads)
    obtain ⟨details, told⟩ := lines_of_step found first
    rw [ExecutionEvent.lines_append, told]
    exact .step details found leads (ih others)

theorem closing_of_fault {settings : RunSettings} (within : count < settings.stepLimit)
    (inside : machine.ip < program.size)
    (failed : (step settings.signRule program machine).result = .error fault) :
    Closing settings program count machine (.error fault)
      (ExecutionEvent.lines (step settings.signRule program machine).events) := by
  have found := Array.getElem?_eq_getElem inside
  rw [step_of_some found] at failed ⊢
  -- The remark stands between the two things that can fail: an operand before it, a target after.
  cases refused : program[machine.ip].fault? machine.ip with
  | some first =>
    rw [Instruction.execute_of_fault _ refused] at failed ⊢
    cases failed
    rw [ExecutionEvent.lines_accessed]
    exact .refused within found ((Instruction.result_execute_eq_error_iff _).mpr refused)
  | none =>
    rw [Instruction.execute_of_no_fault _ refused] at failed ⊢
    simp only at failed ⊢
    cases aimed : target program machine.ip (program[machine.ip].distance machine) with
    | ok place =>
      rw [aimed] at failed
      cases failed
    | error first =>
      rw [aimed] at failed
      cases failed
      obtain ⟨moves, cause, unresolved, rfl⟩ := target_fails_iff.mp aimed
      obtain ⟨jumps, taken, displacement, away, _⟩ := Instruction.taken_of_distance moves
      obtain ⟨details, told⟩ := program[machine.ip].lines_remark settings.signRule machine
      have level : program[machine.ip].remarkLevel = .debug := by
        rw [Instruction.remarkLevel, jumps]
      rw [Instruction.distance_of_taken jumps taken away] at unresolved
      rw [ExecutionEvent.lines_append, ExecutionEvent.lines_accessed, List.nil_append, told, level]
      exact .lost details within found jumps taken away unresolved

end Steps

/-! ## Chains -/

/-- The finest lines lead from the first index to the last one, each from where the one before led
to. -/
def Chained (first last count : Nat) (lines : List (Level × String)) : Prop :=
  ∃ indices : List Nat, indices.length = count + 1 ∧ indices.head? = some first ∧
    indices.getLast? = some last ∧
    lines.filter (fun line => line.1 = .trace) = List.zipWith advanceLine indices indices.tail

section Walks

variable {settings : RunSettings} {rule : SignRule} {program : Program} {machine last : Machine}
  {ended : Except Fault Machine} {lines : List (Level × String)} {count : Nat}

theorem remarkLevel_ne_trace (instruction : Instruction) : instruction.remarkLevel ≠ .trace := by
  unfold Instruction.remarkLevel
  split <;> simp

theorem remarkLevel_ne_info (instruction : Instruction) : instruction.remarkLevel ≠ .info := by
  unfold Instruction.remarkLevel
  split <;> simp

theorem Walk.chained (walk : Walk rule program count machine last lines) :
    Chained machine.ip last.ip count lines := by
  induction walk with
  | stay machine => exact ⟨[machine.ip], rfl, rfl, rfl, rfl⟩
  | @step count machine next last instruction lines details found stepped others ih =>
    obtain ⟨indices, size, first, final, links⟩ := ih
    have dropped := remarkLevel_ne_trace instruction
    cases indices with
    | nil => cases first
    | cons index rest =>
      cases first
      refine ⟨machine.ip :: next.ip :: rest, by simpa using size, rfl, ?_, ?_⟩
      · rw [List.getLast?_cons_cons]
        exact final
      · rw [List.filter_cons_of_neg (by simpa using dropped),
          List.filter_cons_of_pos (by simp [advanceLine]), links]
        rfl

theorem Walk.ne_info (walk : Walk rule program count machine last lines) :
    ∀ line ∈ lines, line.1 ≠ .info := by
  induction walk with
  | stay machine => simp
  | @step count machine next last instruction lines details found stepped others ih =>
    intro line listed
    rcases List.mem_cons.mp listed with rfl | listed
    · exact remarkLevel_ne_info instruction
    · rcases List.mem_cons.mp listed with rfl | listed
      · simp [advanceLine]
      · exact ih line listed

theorem Closing.ne_trace (closing : Closing settings program count last ended lines) :
    lines.filter (fun line => line.1 = .trace) = [] := by
  cases closing <;> simp [haltLine]

theorem haltLine_ne_openingLine (steps : Nat) : haltLine steps ≠ openingLine program := by
  intro same
  have texts := congrArg (fun line => line.2.toList) same
  simp [haltLine, openingLine, String.toList_append] at texts

end Walks

/-! ## Runs -/

section Runs

variable {settings : RunSettings} {program : Program} {machine : Machine}

/-- A run that keeps some of its events is otherwise the same. -/
theorem run_keep (settings : RunSettings) (program : Program) (keep : ExecutionEvent → Bool)
    (machine : Machine) :
    run settings program keep machine =
      ⟨(run settings program (fun _ => true) machine).result,
        (run settings program (fun _ => true) machine).state,
        (run settings program (fun _ => true) machine).events.filter keep⟩ := by
  rcases Nat.lt_or_ge program.size machine.ip with beyond | start
  · rw [run_of_beyond beyond, run_of_beyond beyond]
    rfl
  · rcases steps_trichotomy settings.signRule program settings.stepLimit machine with
      ⟨count, few, last, stepped, behind⟩ | ⟨count, few, middle, stepped, inside, fault, stopped⟩ |
      ⟨last, stepped, inside⟩
    · obtain ⟨events, steps⟩ := Transition.leadsTo_iff_exists.mp stepped
      rw [run_of_halt start few steps behind, run_of_halt start few steps behind, List.filter_true]
    · obtain ⟨events, steps⟩ := Transition.leadsTo_iff_exists.mp stepped
      have stop := Transition.eq_of_result_error stopped
      rw [run_of_fault start few steps inside stop, run_of_fault start few steps inside stop,
        List.filter_true]
    · obtain ⟨events, steps⟩ := Transition.leadsTo_iff_exists.mp stepped
      rw [run_of_limit start steps inside, run_of_limit start steps inside, List.filter_true]

/-- `Recorded settings program machine outcome`: the journal of the outcome is that of the steps
that the run took, with what opens and closes a journal around it. -/
def Recorded (settings : RunSettings) (program : Program) (machine : Machine)
    (outcome : Outcome Machine Fault ExecutionEvent Unit) : Prop :=
  ∃ (count : Nat) (last : Machine) (walked closing : List (Level × String)),
    Walk settings.signRule program count machine last walked ∧
      Closing settings program count last outcome.final closing ∧
      ExecutionEvent.lines outcome.events = openingLine program :: walked ++ closing ∧
      Chained machine.ip outcome.state.ip count (ExecutionEvent.lines outcome.events)

section Recording

variable {last : Machine} {outcome : Outcome Machine Fault ExecutionEvent Unit} {count : Nat}
  {events later : List ExecutionEvent}

theorem recorded_of_times
    (steps : (step settings.signRule program).times count machine = ⟨.ok (), last, events⟩)
    (closing : Closing settings program count last outcome.final (ExecutionEvent.lines later))
    (told : outcome.events = .started program.size :: events ++ later)
    (same : outcome.state.ip = last.ip) : Recorded settings program machine outcome := by
  have walk := walk_of_times steps
  have lines : ExecutionEvent.lines outcome.events =
      openingLine program :: ExecutionEvent.lines events ++ ExecutionEvent.lines later := by
    rw [told, ExecutionEvent.lines_append, ← List.singleton_append, ExecutionEvent.lines_append]
    rfl
  refine ⟨count, last, _, _, walk, closing, lines, ?_⟩
  obtain ⟨indices, size, first, final, links⟩ := walk.chained
  refine ⟨indices, size, first, by rw [final, same], ?_⟩
  rw [lines, List.filter_append, closing.ne_trace, List.append_nil,
    List.filter_cons_of_neg (by simp [openingLine]), links]

theorem recorded_run (start : machine.ip ≤ program.size) :
    Recorded settings program machine (run settings program (fun _ => true) machine) := by
  rcases steps_trichotomy settings.signRule program settings.stepLimit machine with
    ⟨count, few, last, stepped, behind⟩ | ⟨count, few, middle, stepped, inside, fault, stopped⟩ |
    ⟨last, stepped, inside⟩
  · obtain ⟨events, steps⟩ := Transition.leadsTo_iff_exists.mp stepped
    have bound := ip_le_size_of_steps start stepped
    have closing : Closing settings program count last (.ok last)
        (ExecutionEvent.lines [.halted count]) := .halted few (Nat.le_antisymm bound behind)
    rw [run_of_halt start few steps behind, List.filter_true]
    exact recorded_of_times steps closing rfl rfl
  · obtain ⟨events, steps⟩ := Transition.leadsTo_iff_exists.mp stepped
    have unmoved := (differsByReads_of_step stopped).ip
    rw [run_of_fault start few steps inside (Transition.eq_of_result_error stopped),
      List.filter_true]
    exact recorded_of_times steps (closing_of_fault few inside stopped) rfl unmoved
  · obtain ⟨events, steps⟩ := Transition.leadsTo_iff_exists.mp stepped
    have closing : Closing settings program settings.stepLimit last
        (.error (.stepLimitExceeded last.ip settings.stepLimit)) (ExecutionEvent.lines []) :=
      .exhausted rfl inside
    rw [run_of_limit start steps inside, List.filter_true]
    exact recorded_of_times steps closing (List.append_nil _).symm rfl

theorem Recorded.halted_iff (recorded : Recorded settings program machine outcome) :
    (∃ steps, haltLine steps ∈ ExecutionEvent.lines outcome.events) ↔
      ∃ last, outcome.final = .ok last := by
  obtain ⟨count, last, walked, closing, walk, closes, told, _⟩ := recorded
  rw [told]
  constructor
  · rintro ⟨steps, listed⟩
    rcases List.mem_append.mp listed with listed | listed
    · rcases List.mem_cons.mp listed with opens | listed
      · exact absurd opens (haltLine_ne_openingLine steps)
      · exact absurd rfl (walk.ne_info _ listed)
    · generalize outcome.final = ended at closes
      cases closes with
      | halted within behind => exact ⟨last, rfl⟩
      | lost details => simp [haltLine] at listed
      | refused => cases listed
      | exhausted => cases listed
  · rintro ⟨reached, ended⟩
    rw [ended] at closes
    cases closes with
    | halted within behind => exact ⟨count, by simp⟩

theorem Recorded.exhausted (recorded : Recorded settings program machine outcome)
    {index limit : Nat} (ended : outcome.final = .error (.stepLimitExceeded index limit)) :
    Chained machine.ip outcome.state.ip settings.stepLimit
      (ExecutionEvent.lines outcome.events) := by
  obtain ⟨count, last, walked, closing, _, closes, _, chained⟩ := recorded
  rw [ended] at closes
  cases closes with
  | refused within found failed => cases Instruction.ofOperand_of_execute _ failed
  | exhausted all inside => exact all ▸ chained

end Recording

/-- What the journal of a run shows. -/
structure RunJournal (settings : RunSettings) (program : Program) (machine : Machine) : Prop where
  beyond : program.size < machine.ip →
    (run settings program (fun _ => true) machine).events = []
  recorded : machine.ip ≤ program.size →
    Recorded settings program machine (run settings program (fun _ => true) machine)
  halted_iff :
    (∃ steps, haltLine steps ∈
        ExecutionEvent.lines (run settings program (fun _ => true) machine).events) ↔
      ∃ last, (run settings program (fun _ => true) machine).final = .ok last
  exhausted : ∀ index limit : Nat,
    (run settings program (fun _ => true) machine).final =
        .error (.stepLimitExceeded index limit) →
      Chained machine.ip (run settings program (fun _ => true) machine).state.ip
        settings.stepLimit
        (ExecutionEvent.lines (run settings program (fun _ => true) machine).events)
  kept : ∀ keep : ExecutionEvent → Bool,
    (run settings program keep machine).final =
        (run settings program (fun _ => true) machine).final ∧
      (run settings program keep machine).events =
        (run settings program (fun _ => true) machine).events.filter keep

theorem run_journaled (settings : RunSettings) (program : Program) (machine : Machine) :
    RunJournal settings program machine where
  beyond := by
    intro beyond
    rw [run_of_beyond beyond]
  recorded := by
    intro start
    exact recorded_run start
  halted_iff := by
    rcases Nat.lt_or_ge program.size machine.ip with beyond | start
    · rw [run_of_beyond beyond]
      simp [ExecutionEvent.lines, Outcome.final, Except.map]
    · exact (recorded_run start).halted_iff
  exhausted := by
    intro index limit ended
    rcases Nat.lt_or_ge program.size machine.ip with beyond | start
    · rw [run_of_beyond beyond] at ended
      cases ended
    · exact (recorded_run start).exhausted ended
  kept := by
    intro keep
    rw [run_keep settings program keep machine]
    exact ⟨rfl, rfl⟩

end Runs

end Execution

end Mini8086
