import Mini8086.Proofs.Atomicity
import Mini8086.Proofs.Counters

/-!
# What executions cost

Every access to memory is counted once and reported once.  Main statement,
`Execution.accesses_accounted`: an instruction that succeeds costs what its memory operands cost,
one that fails costs the reads in front of its fault, and over a run these costs add up to what the
journal shows.
-/

set_option autoImplicit false

namespace Mini8086

/-! ## Counts of accesses -/

def Access.readLength? : Access → Option Nat
  | .read _ length => some length
  | .write .. => none

def Access.writeLength? : Access → Option Nat
  | .write _ length => some length
  | .read .. => none

namespace AccessCounts

def tally (accesses : List Access) : AccessCounts where
  bytesRead := (accesses.filterMap Access.readLength?).sum
  bytesWritten := (accesses.filterMap Access.writeLength?).sum
  reads := (accesses.filterMap Access.readLength?).length
  writes := (accesses.filterMap Access.writeLength?).length

def total (counts : List AccessCounts) : AccessCounts :=
  counts.foldr plus {}

theorem plus_assoc (first second third : AccessCounts) :
    (first.plus second).plus third = first.plus (second.plus third) := by
  simp [plus, Nat.add_assoc]

theorem tally_append (earlier later : List Access) :
    tally (earlier ++ later) = (tally earlier).plus (tally later) := by
  simp [tally, plus]

theorem add_eq_plus_tally (counts : AccessCounts) (access : Access) :
    counts.add access = counts.plus (tally [access]) := by
  cases access <;> rfl

theorem foldl_add_eq (counts : AccessCounts) (accesses : List Access) :
    accesses.foldl add counts = counts.plus (tally accesses) := by
  induction accesses generalizing counts with
  | nil => rfl
  | cons access others ih =>
    rw [List.foldl_cons, ih, add_eq_plus_tally, plus_assoc, ← tally_append, List.singleton_append]

@[simp]
theorem total_cons (counts : AccessCounts) (others : List AccessCounts) :
    total (counts :: others) = counts.plus (total others) := rfl

@[simp]
theorem total_nil : total [] = {} := rfl

end AccessCounts

theorem Machine.counts_counting (machine : Machine) (accesses : List Access) :
    (machine.counting accesses).memory.counts = machine.memory.counts.plus (.tally accesses) :=
  AccessCounts.foldl_add_eq _ _

/-! ## Costs -/

namespace Operand

def readCost : Operand → AccessCounts
  | .memory place => { reads := 1, bytesRead := place.width.bytes }
  | .register _ | .immediate _ | .relative _ => {}

def writeCost : Operand → AccessCounts
  | .memory place => { writes := 1, bytesWritten := place.width.bytes }
  | .register _ | .immediate _ | .relative _ => {}

variable {operand : Operand} {index : Nat}

theorem tally_read (readable : operand.readFault? index = none) :
    AccessCounts.tally (operand.accesses .read) = operand.readCost := by
  cases operand with
  | memory place =>
    obtain ⟨address, found, _⟩ := place.fits_of_no_fault readable
    simp [accesses, readCost, found, AccessCounts.tally, List.filterMap_cons,
      Access.readLength?, Access.writeLength?]
  | register register => rfl
  | immediate constant => rfl
  | relative displacement => rfl

theorem tally_write (writable : operand.writeFault? index = none) :
    AccessCounts.tally (operand.accesses .write) = operand.writeCost := by
  cases operand with
  | memory place =>
    obtain ⟨address, found, _⟩ := place.fits_of_no_fault writable
    simp [accesses, writeCost, found, AccessCounts.tally, List.filterMap_cons,
      Access.readLength?, Access.writeLength?]
  | register register => rfl
  | immediate constant => rfl
  | relative displacement => rfl

end Operand

namespace Stage

def cost : Stage → AccessCounts
  | .read operand => operand.readCost
  | .write operand => operand.writeCost
  | .missing _ => {}

variable {stage : Stage} {index : Nat}

theorem tally_accesses (ready : stage.fault? index = none) :
    AccessCounts.tally stage.accesses = stage.cost := by
  cases stage with
  | read operand => exact Operand.tally_read ready
  | write operand => exact Operand.tally_write ready
  | missing mnemonic => rfl

/-- Stages cost what is in front of the first fault among them. -/
theorem tally_accessesBefore (stages : List Stage) (index : Nat) :
    AccessCounts.tally (accessesBefore stages index) =
      .total ((stages.takeWhile fun stage => (stage.fault? index).isNone).map cost) := by
  induction stages with
  | nil => rfl
  | cons stage others ih =>
    cases found : stage.fault? index with
    | some fault =>
      rw [accessesBefore_cons_of_fault _ found, List.takeWhile_cons_of_neg (by simp [found])]
      rfl
    | none =>
      rw [accessesBefore_cons_of_no_fault _ found, AccessCounts.tally_append,
        List.takeWhile_cons_of_pos (by simp [found]), tally_accesses found, ih]
      rfl

end Stage

namespace Instruction

def sourceCost (instruction : Instruction) : AccessCounts :=
  (instruction.source.map Operand.readCost).getD {}

def cost (instruction : Instruction) : AccessCounts :=
  let destination := instruction.destination
  match instruction.mnemonic with
  | .data .mov => instruction.sourceCost.plus destination.writeCost
  | .data (.arithmetic .add) | .data (.arithmetic .sub) =>
    (destination.readCost.plus instruction.sourceCost).plus destination.writeCost
  | .data (.arithmetic .cmp) => destination.readCost.plus instruction.sourceCost
  | .branch _ => {}

/-- What an instruction costs where it fails: the reads that come before its fault. -/
def costToFault (instruction : Instruction) (machine : Machine) : AccessCounts :=
  .total ((instruction.readOrder.takeWhile fun operand =>
    (Execution.read operand machine).result.isOk).map Operand.readCost)

theorem total_cost_stages (instruction : Instruction) :
    AccessCounts.total (instruction.stages.map Stage.cost) = instruction.cost := by
  have source : instruction.sourceStage.cost = instruction.sourceCost := by
    unfold sourceStage sourceCost
    cases instruction.source <;> rfl
  unfold cost
  cases named : instruction.mnemonic with
  | branch jump =>
    rw [stages_of_branch named]
    rfl
  | data operation =>
    rw [stages_of_data named, List.map_append, List.map_cons, source]
    rcases operation with _ | _ | _ | _ <;>
      simp [DataOperation.destinationStages, resultStages, DataOperation.stores,
        Arithmetic.stores, Stage.cost, AccessCounts.plus_assoc, AccessCounts.plus_zero]

/-- An addition to a word in memory reads it before it writes it. -/
example : cost ⟨.data (.arithmetic .add), .memory ⟨.direct 8, 0, .word⟩,
    some (.register (.word .ax)), 4⟩ = ⟨2, 2, 1, 1⟩ := rfl

theorem tally_accesses {instruction : Instruction} {index : Nat}
    (fine : instruction.fault? index = none) :
    AccessCounts.tally (instruction.accesses index) = instruction.cost := by
  have ready : ∀ stage ∈ instruction.stages, (stage.fault? index).isNone = true := by
    intro stage listed
    rw [List.findSome?_eq_none_iff.mp fine stage listed]
    rfl
  rw [accesses, Stage.tally_accessesBefore, List.takeWhile_eq_self_iff.mpr ready,
    total_cost_stages]

theorem tally_reads (instruction : Instruction) (machine : Machine) :
    AccessCounts.tally (instruction.reads machine) = instruction.costToFault machine := by
  unfold reads costToFault
  simp only [Execution.isOk_read]
  induction instruction.readOrder with
  | nil => rfl
  | cons operand others ih =>
    rw [List.takeWhile_cons]
    cases readable : operand.readFault? machine.ip with
    | some fault => rfl
    | none =>
      simp only [Option.isNone_none, if_true, List.flatMap_cons, List.map_cons,
        AccessCounts.tally_append, AccessCounts.total_cons, Operand.tally_read readable, ih]

end Instruction

/-! ## Executed instructions -/

namespace Execution

variable {rule : SignRule} {program : Program} {machine last : Machine}

theorem counts_execute_of_ok {instruction : Instruction} {offset : Int}
    (succeeded : (instruction.execute rule machine).result = .ok offset) :
    (instruction.execute rule machine).state.memory.counts =
      machine.memory.counts.plus instruction.cost := by
  have fine := ((Instruction.result_execute_eq_ok_iff rule).mp succeeded).1
  rw [Instruction.execute_of_no_fault rule fine, Machine.counts_counting,
    Instruction.tally_accesses fine, Instruction.counts_effect]

theorem counts_execute_of_error {instruction : Instruction} {fault : Fault}
    (failed : (instruction.execute rule machine).result = .error fault) :
    (instruction.execute rule machine).state.memory.counts =
      machine.memory.counts.plus (instruction.costToFault machine) := by
  have known := (Instruction.result_execute_eq_error_iff rule).mp failed
  rw [Instruction.execute_of_fault rule known, Machine.counts_counting,
    Instruction.accesses_of_fault known, Instruction.tally_reads]

def executed (rule : SignRule) (program : Program) : Nat → Machine → List Instruction
  | 0, _ => []
  | count + 1, machine =>
    program[machine.ip]?.toList ++ executed rule program count (step rule program machine).state

theorem counts_times {count : Nat}
    (stepped : ((step rule program).times count).LeadsTo machine last) :
    last.memory.counts =
      machine.memory.counts.plus
        (.total ((executed rule program count machine).map Instruction.cost)) := by
  induction count generalizing machine with
  | zero =>
    rw [Transition.times_zero_leadsTo_iff] at stepped
    rw [← stepped]
    rfl
  | succ count ih =>
    obtain ⟨next, first, others⟩ := Transition.times_succ_leadsTo_iff.mp stepped
    obtain ⟨instruction, offset, place, found, succeeded, _, reached⟩ := executed_of_step first
    have paid : next.memory.counts = machine.memory.counts.plus instruction.cost := by
      rw [← reached]
      exact counts_execute_of_ok succeeded
    rw [ih others, paid, executed, found, first.2, AccessCounts.plus_assoc]
    rfl

end Execution

/-! ## Requests in the journal -/

namespace Access

def heading : Access → String
  | .read .. => "read request: "
  | .write .. => "write request: "

theorem exists_message (access : Access) : ∃ rest, access.message = access.heading ++ rest := by
  cases access with
  | read address length =>
    refine ⟨length.repr ++ (" bytes at " ++ Numeral.hex 4 address), ?_⟩
    rw [← String.append_assoc, ← String.append_assoc]
    rfl
  | write address length =>
    refine ⟨length.repr ++ (" bytes at " ++ Numeral.hex 4 address), ?_⟩
    rw [← String.append_assoc, ← String.append_assoc]
    rfl

end Access

namespace ExecutionEvent

def access? : ExecutionEvent → Option Access
  | .accessed access => some access
  | _ => none

def accesses (events : List ExecutionEvent) : List Access :=
  events.filterMap access?

def Headed (event : ExecutionEvent) (heading : String) : Prop :=
  event.level = .trace ∧ heading.toList <+: event.message.toList

@[simp]
theorem accesses_append (earlier later : List ExecutionEvent) :
    accesses (earlier ++ later) = accesses earlier ++ accesses later :=
  List.filterMap_append

@[simp]
theorem accesses_cons_accessed (access : Access) (others : List ExecutionEvent) :
    accesses (.accessed access :: others) = access :: accesses others := rfl

@[simp]
theorem accesses_accessed (requests : List Access) :
    accesses (requests.map .accessed) = requests := by
  induction requests with
  | nil => rfl
  | cons access others ih => rw [List.map_cons, accesses_cons_accessed, ih]

theorem accesses_remark (rule : SignRule) (instruction : Instruction) (machine : Machine) :
    accesses [instruction.remark rule machine] = [] := by
  unfold Instruction.remark
  rcases instruction.mnemonic with (_ | operation) | jump
  · rfl
  · rfl
  · cases jump <;> rfl

theorem accesses_filter {keep : ExecutionEvent → Bool}
    (shown : ∀ access, keep (.accessed access) = true) (events : List ExecutionEvent) :
    accesses (events.filter keep) = accesses events := by
  induction events with
  | nil => rfl
  | cons event others ih =>
    by_cases kept : keep event = true
    · rw [List.filter_cons_of_pos kept]
      unfold accesses at ih ⊢
      rw [List.filterMap_cons, List.filterMap_cons, ih]
    · rw [List.filter_cons_of_neg kept, ih]
      cases event with
      | accessed access => exact absurd (shown access) kept
      | _ => rfl

theorem message_accessed (access : Access) : (accessed access).message = access.message := rfl

theorem message_advanced (index next : Nat) :
    (advanced index next).message = "ip " ++ index.repr ++ " -> " ++ next.repr := rfl

theorem headed_of_accessed (access : Access) :
    (ExecutionEvent.accessed access).Headed access.heading := by
  obtain ⟨rest, told⟩ := access.exists_message
  refine ⟨rfl, ?_⟩
  rw [message_accessed, told, String.toList_append]
  exact List.prefix_append _ _

theorem exists_access_of_headed {event : ExecutionEvent} {request : Access}
    (found : event.Headed request.heading) :
    ∃ access, event = .accessed access ∧ access.heading = request.heading := by
  obtain ⟨finest, starts⟩ := found
  cases event with
  | accessed access =>
    refine ⟨access, rfl, ?_⟩
    obtain ⟨rest, told⟩ := access.exists_message
    rw [message_accessed, told, String.toList_append] at starts
    cases access <;> cases request <;> simp [Access.heading] at starts ⊢
  | advanced index next =>
    rw [message_advanced, String.append_assoc, String.append_assoc, String.toList_append] at starts
    cases request <;> simp [Access.heading] at starts
  | _ => cases finest

end ExecutionEvent

/-! ## Counters and journal -/

/-- What was counted between two machines is what the events report. -/
def Machine.Accounts (start last : Machine) (events : List ExecutionEvent) : Prop :=
  last.memory.counts = start.memory.counts.plus (.tally (ExecutionEvent.accesses events))

namespace Machine.Accounts

variable {start middle last : Machine} {earlier later events : List ExecutionEvent}

theorem silent (machine : Machine) {event : ExecutionEvent} (nothing : event.access? = none) :
    machine.Accounts machine [event] := by
  unfold Accounts ExecutionEvent.accesses
  rw [List.filterMap_cons_none nothing]
  rfl

theorem trans (first : start.Accounts middle earlier) (second : middle.Accounts last later) :
    start.Accounts last (earlier ++ later) := by
  unfold Accounts at first second ⊢
  rw [second, first, AccessCounts.plus_assoc, ← AccessCounts.tally_append,
    ← ExecutionEvent.accesses_append]

theorem filter {keep : ExecutionEvent → Bool} (shown : ∀ access, keep (.accessed access) = true)
    (whole : start.Accounts last events) : start.Accounts last (events.filter keep) := by
  unfold Accounts at whole ⊢
  rw [ExecutionEvent.accesses_filter shown, whole]

end Machine.Accounts

namespace Execution

variable {rule : SignRule} {program : Program} {machine last : Machine}
  {events : List ExecutionEvent}

theorem accounts_execute (rule : SignRule) (instruction : Instruction) (machine : Machine) :
    machine.Accounts (instruction.execute rule machine).state
      (instruction.execute rule machine).events := by
  unfold Machine.Accounts
  cases found : instruction.fault? machine.ip with
  | some fault =>
    rw [Instruction.execute_of_fault rule found, Machine.counts_counting,
      ExecutionEvent.accesses_accessed]
  | none =>
    rw [Instruction.execute_of_no_fault rule found, Machine.counts_counting,
      Instruction.counts_effect, ExecutionEvent.accesses_append, ExecutionEvent.accesses_accessed,
      ExecutionEvent.accesses_remark, List.append_nil]

theorem accounts_step (rule : SignRule) (program : Program) (machine : Machine) :
    machine.Accounts (step rule program machine).state (step rule program machine).events := by
  cases found : program[machine.ip]? with
  | none =>
    rw [step_of_none found]
    rfl
  | some instruction =>
    have paid := accounts_execute rule instruction machine
    rw [step_of_some found]
    generalize instruction.execute rule machine = executed at paid ⊢
    obtain ⟨_ | offset, state, events⟩ := executed
    · exact paid
    · simp only
      cases target program machine.ip offset with
      | error fault => exact paid
      | ok next =>
        have moved : state.Accounts (state.atIndex next) [.advanced machine.ip next] :=
          .silent state rfl
        exact paid.trans moved

theorem accounts_times {count : Nat}
    (stepped : (step rule program).times count machine = ⟨.ok (), last, events⟩) :
    machine.Accounts last events := by
  induction count generalizing machine events with
  | zero =>
    cases stepped
    rfl
  | succ count ih =>
    obtain ⟨_, next, earlier, later, first, others, rfl⟩ := Transition.bind_eq_ok_iff.mp stepped
    have paid := accounts_step rule program machine
    rw [first] at paid
    exact paid.trans (ih others)

/-- However a run ends, its journal shows every access that it counts. -/
theorem accounts_run (settings : RunSettings) (program : Program) {keep : ExecutionEvent → Bool}
    (shown : ∀ access, keep (.accessed access) = true) (machine : Machine) :
    machine.Accounts (run settings program keep machine).state
      (run settings program keep machine).events := by
  rcases Nat.lt_or_ge program.size machine.ip with beyond | start
  · rw [run_of_beyond beyond]
    rfl
  · have opened : machine.Accounts machine [.started program.size] := .silent machine rfl
    rcases steps_trichotomy settings.signRule program settings.stepLimit machine with
      ⟨count, few, last, stepped, behind⟩ | ⟨count, few, middle, stepped, inside, fault, stopped⟩ |
      ⟨last, stepped, inside⟩
    · obtain ⟨events, steps⟩ := Transition.leadsTo_iff_exists.mp stepped
      have closed : last.Accounts last [.halted count] := .silent last rfl
      rw [run_of_halt start few steps behind]
      exact ((opened.trans (accounts_times steps)).trans closed).filter shown
    · obtain ⟨events, steps⟩ := Transition.leadsTo_iff_exists.mp stepped
      have ended := accounts_step settings.signRule program middle
      rw [run_of_fault start few steps inside (Transition.eq_of_result_error stopped)]
      exact ((opened.trans (accounts_times steps)).trans ended).filter shown
    · obtain ⟨events, steps⟩ := Transition.leadsTo_iff_exists.mp stepped
      rw [run_of_limit start steps inside]
      exact (opened.trans (accounts_times steps)).filter shown

/-! ## The ledger -/

structure AccessLedger (settings : RunSettings) : Prop where
  success : ∀ (instruction : Instruction) (machine : Machine) (offset : Int),
    (instruction.execute settings.signRule machine).result = .ok offset →
      (instruction.execute settings.signRule machine).state.memory.counts =
        machine.memory.counts.plus instruction.cost
  failure : ∀ (instruction : Instruction) (machine : Machine) (fault : Fault),
    (instruction.execute settings.signRule machine).result = .error fault →
      (instruction.execute settings.signRule machine).state.memory.counts =
          machine.memory.counts.plus (instruction.costToFault machine) ∧
        (instruction.costToFault machine).writes = 0 ∧
        (instruction.costToFault machine).bytesWritten = 0
  run_cost : ∀ (program : Program) (keep : ExecutionEvent → Bool) (machine last : Machine),
    (run settings program keep).LeadsTo machine last →
      ∃ count ≤ settings.stepLimit,
        ((step settings.signRule program).times count).LeadsTo machine last ∧
          last.ip = program.size ∧
          last.memory.counts = machine.memory.counts.plus
            (.total ((executed settings.signRule program count machine).map Instruction.cost))
  reported : ∀ (program : Program) (keep : ExecutionEvent → Bool) (machine : Machine),
    (∀ access, keep (.accessed access) = true) →
      machine.Accounts (run settings program keep machine).state
        (run settings program keep machine).events
  headed_iff : ∀ (event : ExecutionEvent) (request : Access),
    event.Headed request.heading ↔
      ∃ access, event = .accessed access ∧ access.heading = request.heading

/-- The counters grow by what the executed instructions cost, and the journal shows the same. -/
theorem accesses_accounted (settings : RunSettings) : AccessLedger settings where
  success := by
    intro instruction machine offset succeeded
    exact counts_execute_of_ok succeeded
  failure := by
    intro instruction machine fault failed
    have paid := counts_execute_of_error failed
    have alike := differsByReads_of_execute failed
    have writes := alike.writes
    have bytesWritten := alike.bytesWritten
    rw [paid] at writes bytesWritten
    exact ⟨paid, Nat.add_eq_left.mp writes, Nat.add_eq_left.mp bytesWritten⟩
  run_cost := by
    intro program keep machine last ended
    have start : machine.ip ≤ program.size := by
      by_contra beyond
      exact ended.not_error _ (by rw [run_of_beyond (by omega)])
    obtain ⟨count, few, stepped, behind⟩ := (run_leadsTo_iff start).mp ended
    exact ⟨count, few, stepped, behind, counts_times stepped⟩
  reported := by
    intro program keep machine shown
    exact accounts_run settings program shown machine
  headed_iff := by
    intro event request
    constructor
    · intro found
      exact ExecutionEvent.exists_access_of_headed found
    · rintro ⟨access, rfl, same⟩
      rw [← same]
      exact ExecutionEvent.headed_of_accessed access

end Execution

end Mini8086
