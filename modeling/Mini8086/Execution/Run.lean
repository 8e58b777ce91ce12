import Mini8086.Decoding.Reading
import Mini8086.Execution.Execute

/-!
# Running programs

A step executes the instruction that the machine's index names and moves the index; a run repeats
steps until the index is behind the last instruction.  A run keeps the part of its journal that it
is asked for, so that a long run does not have to keep all of it.
-/

set_option autoImplicit false

namespace Mini8086

structure RunSettings where
  stepLimit : Nat := 1000000
  signRule : SignRule := .nonZero
  deriving DecidableEq

namespace Execution

def target (program : Program) (index : Nat) (offset : Int) : Except Fault Nat :=
  if offset = 0 then
    .ok (index + 1)
  else
    match resolveJump Instruction.length program index offset with
    | .ok next => .ok next
    | .error cause => .error (.invalidJumpTarget index cause)

def noInstruction (index : Nat) : Fault :=
  .invalidJumpTarget index (.outOfRange index 0)

def step (rule : SignRule) (program : Program) : Execution Unit := do
  let index ← ip
  match program[index]? with
  | none => Transition.fail (noInstruction index)
  | some instruction =>
    let offset ← instruction.execute rule
    let next ← Transition.ofExcept (target program index offset)
    Transition.update fun machine => { machine with ip := next }
    Transition.report (.advanced index next)

/-- The events to keep, in front of those kept so far in reverse order. -/
def keepEvents (keep : ExecutionEvent → Bool) (events kept : List ExecutionEvent) :
    List ExecutionEvent :=
  events.foldl (fun kept event => if keep event then event :: kept else kept) kept

/-- Goes on with a run that has taken `taken` steps and may take `remaining` more. `kept` is the
journal so far in reverse order. -/
def runFrom (rule : SignRule) (program : Program) (keep : ExecutionEvent → Bool)
    (taken remaining : Nat) (kept : List ExecutionEvent) (machine : Machine) :
    Outcome Machine Fault ExecutionEvent Unit :=
  if machine.ip < program.size then
    match remaining with
    | 0 => ⟨.error (.stepLimitExceeded machine.ip taken), machine, kept.reverse⟩
    | remaining + 1 =>
      match step rule program machine with
      | ⟨.ok (), next, events⟩ =>
        runFrom rule program keep (taken + 1) remaining (keepEvents keep events kept) next
      | ⟨.error fault, last, events⟩ => ⟨.error fault, last, (keepEvents keep events kept).reverse⟩
  else
    ⟨.ok (), machine, (keepEvents keep [.halted taken] kept).reverse⟩

def run (settings : RunSettings) (program : Program) (keep : ExecutionEvent → Bool) :
    Execution Unit :=
  fun machine =>
    if program.size < machine.ip then
      ⟨.error (noInstruction machine.ip), machine, []⟩
    else
      runFrom settings.signRule program keep 0 settings.stepLimit
        (keepEvents keep [.started program.size] []) machine

end Execution
end Mini8086
