import Mini8086.Operand

/-!
# Instructions

An instruction has a mnemonic, a destination, perhaps a source, and the number of bytes that it
takes in the image it was read from.
-/

set_option autoImplicit false

namespace Mini8086

inductive Arithmetic where
  | add
  | sub
  | cmp
  deriving DecidableEq, Ord

inductive DataOperation where
  | mov
  | arithmetic (operation : Arithmetic)
  deriving DecidableEq, Ord

/-- The jumps and loops, all with a one-byte distance. -/
inductive Branch where
  | jnz | je | jl | jle | jb | jbe | jp | jo | js | jnl | jg | jnb | ja | jnp | jno | jns
  | loop | loopz | loopnz | jcxz
  deriving DecidableEq, Ord

inductive Mnemonic where
  | data (operation : DataOperation)
  | branch (jump : Branch)
  deriving DecidableEq, Ord

structure Instruction where
  mnemonic : Mnemonic
  destination : Operand
  source : Option Operand
  length : Nat
  deriving DecidableEq

def Arithmetic.name : Arithmetic → String
  | .add => "add"
  | .sub => "sub"
  | .cmp => "cmp"

def DataOperation.name : DataOperation → String
  | .mov => "mov"
  | .arithmetic operation => operation.name

namespace Branch

def all : List Branch :=
  [.jnz, .je, .jl, .jle, .jb, .jbe, .jp, .jo, .js, .jnl, .jg, .jnb, .ja, .jnp, .jno, .jns,
    .loop, .loopz, .loopnz, .jcxz]

def name : Branch → String
  | .jnz => "jnz"
  | .je => "je"
  | .jl => "jl"
  | .jle => "jle"
  | .jb => "jb"
  | .jbe => "jbe"
  | .jp => "jp"
  | .jo => "jo"
  | .js => "js"
  | .jnl => "jnl"
  | .jg => "jg"
  | .jnb => "jnb"
  | .ja => "ja"
  | .jnp => "jnp"
  | .jno => "jno"
  | .jns => "jns"
  | .loop => "loop"
  | .loopz => "loopz"
  | .loopnz => "loopnz"
  | .jcxz => "jcxz"

end Branch

namespace Mnemonic

def mov : Mnemonic := .data .mov

def arithmetic (operation : Arithmetic) : Mnemonic := .data (.arithmetic operation)

def all : List Mnemonic :=
  [mov, arithmetic .add, arithmetic .sub, arithmetic .cmp] ++ Branch.all.map .branch

def name : Mnemonic → String
  | .data operation => operation.name
  | .branch jump => jump.name

end Mnemonic

namespace Instruction

/-- The distance of a jump or loop; other destinations give none. -/
def displacement? (instruction : Instruction) : Option Int8 :=
  match instruction.destination with
  | .relative displacement => some displacement
  | _ => none

/-- The operands as text. An immediate does not say how wide the write to memory is, so there the
width is written out. -/
def operandText : Operand → Option Operand → String
  | .memory place, some (.immediate constant) =>
    place.width.name ++ " " ++ place.text ++ ", " ++ constant.text
  | destination, some source => destination.text ++ ", " ++ source.text
  | destination, none => destination.text

def text (instruction : Instruction) : String :=
  instruction.mnemonic.name ++ " " ++ operandText instruction.destination instruction.source

end Instruction
end Mini8086
