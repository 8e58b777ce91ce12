import Mini8086.CommandLine.FileTree
import Mini8086.CommandLine.Options
import Mini8086.Machine

/-!
# Answering a command line

The image is read and decoded before anything is printed, so a broken image yields no listing; a
failing execution comes after the listing and leaves it.  Printing stops the program where it fails.
A line of the log names the level of an event, the activity during which it happened, the part of
the simulator that reported it, and the event; a log of warnings alone names no activities.
-/

set_option autoImplicit false

namespace Mini8086.CommandLine

/-! ## The log -/

/-- What the program is busy with, and with how many bytes or instructions. -/
inductive Activity where
  | decoding (bytes : Nat)
  | running (instructions : Nat)

namespace Activity

def text : Activity → String
  | .decoding bytes => "decode\x7blen=" ++ bytes.repr ++ "\x7d: "
  | .running instructions => "run\x7blen=" ++ instructions.repr ++ "\x7d: "

end Activity

/-- Characters that can steer a terminal are spelled out by their codes. -/
def visible (character : Char) : String :=
  let code := character.toNat
  if code = 7 ∨ code = 8 ∨ code = 12 ∨ code = 27 ∨ code = 127 then
    "\\x" ++ Numeral.padded 2 (Nat.toDigits 16 code)
  else if 128 ≤ code ∧ code ≤ 159 then
    "\\u\x7b" ++ String.ofList (Nat.toDigits 16 code) ++ "\x7d"
  else
    character.toString

/-- A line of the log, if it is to be shown at this verbosity. -/
def logLine? (verbosity : Nat) (level : Level) (activity? : Option Activity)
    (origin message : String) : Option String :=
  let activity :=
    match activity? with
    | some activity => if Level.info.shownAt verbosity then activity.text else ""
    | none => ""
  if level.shownAt verbosity then
    some (level.name ++ " " ++ activity ++ origin ++ ": " ++
      String.join (message.toList.map visible))
  else
    none

def decodeOrigin : DecodeEvent → String
  | .note _ => "sim86_i8086::decoder"
  | .consumed .. | .finished .. => "sim86_core::cpu::decoder"

def executionOrigin : ExecutionEvent → String
  | .accessed _ => "sim86_core::memory"
  | _ => "sim86_i8086::cpu"

def decodeLog (verbosity bytes : Nat) (events : List DecodeEvent) : List String :=
  let activity := Activity.decoding bytes
  events.filterMap fun event =>
    logLine? verbosity event.level (some activity) (decodeOrigin event) event.message

def executionLog (verbosity instructions : Nat) (events : List ExecutionEvent) : List String :=
  let activity := Activity.running instructions
  events.filterMap fun event =>
    logLine? verbosity event.level (some activity) (executionOrigin event) event.message

/-! ## Failures -/

inductive Failure where
  | create (path : String) (cause : SystemError)
  | read (path : String) (cause : SystemError)
  | decode (path : String) (cause : DecodeError)
  | print (cause : SystemError)
  | execute (cause : Fault)
  deriving DecidableEq

namespace Failure

def message : Failure → String
  | .create path _ => "failed to create " ++ path
  | .read path _ => "failed to read " ++ path
  | .decode path _ => "failed to decode " ++ path
  | .print cause => cause.message
  | .execute _ => "execution failed"

def causes : Failure → List String
  | .create path cause => ["cannot create output file. path=" ++ path, cause.message]
  | .read _ cause => [cause.message]
  | .decode _ cause => [cause.message]
  | .print _ => []
  | .execute cause => cause.message :: cause.causeMessage?.toList

def causeLines (label cause : String) : List String :=
  let margin := String.ofList (List.replicate label.length ' ')
  match cause.splitOn "\n" with
  | first :: others => (label ++ first) :: others.map (margin ++ ·)
  | [] => []

/-- The lines of the error report; causes are numbered when there are several. -/
def report (failure : Failure) : List String :=
  ("Error: " ++ failure.message).splitOn "\n" ++
    match failure.causes with
    | [] => []
    | [cause] => "" :: "Caused by:" :: causeLines "    " cause
    | causes =>
      "" :: "Caused by:" ::
        (causes.mapIdx fun index cause => causeLines ("    " ++ index.repr ++ ": ") cause).flatten

end Failure

/-! ## Printing -/

def lines (texts : List String) : String :=
  String.join (texts.map (· ++ "\n"))

/-- What becomes of a line behind what was printed before: it is taken, or a part of it is and then
printing fails. -/
abbrev Stdout : Type :=
  String → String → Option (String × SystemError)

/-- The program at work. Its state is what it has printed, its events are the lines of the log. -/
abbrev Console : Type → Type :=
  Transition String Failure String

namespace Console

def log (written : List String) : Console Unit := fun printed =>
  ⟨.ok (), printed, written⟩

def printLines (stdout : Stdout) : List String → Console Unit
  | [], printed => ⟨.ok (), printed, []⟩
  | line :: others, printed =>
    match stdout printed line with
    | none => printLines stdout others (printed ++ line ++ "\n")
    | some (part, error) => ⟨.error (.print error), printed ++ part, []⟩

def decode (options : Options) (image : List UInt8) : Console Program := do
  log (decodeLog options.verbosity image.length (Program.decodeEvents options.signExtend image))
  Transition.ofExcept
    ((Program.decode options.signExtend image).mapError (.decode options.binary))

/-- Runs a program from the initial machine; events that are not shown are not kept. -/
def execute (options : Options) (program : Program) : Console Machine := do
  let keep := fun (event : ExecutionEvent) => event.level.shownAt options.verbosity
  let outcome := Execution.run options.settings program keep .initial
  log (executionLog options.verbosity program.size outcome.events)
  Transition.ofExcept ((outcome.result.map fun _ => outcome.state).mapError .execute)

end Console

/-! ## The simulation -/

def listingLine (showLength : Bool) (instruction : Instruction) : String :=
  if showLength then
    instruction.text ++ " (len:" ++ instruction.length.repr ++ ")"
  else
    instruction.text

def listingLines (showLength : Bool) (program : Program) : List String :=
  program.toList.map (listingLine showLength)

def listing (showLength : Bool) (program : Program) : String :=
  lines (listingLines showLength program)

def finalState (machine : Machine) : List String :=
  ["", "final state:", machine.text]

def present (stdout : Stdout) (options : Options) (program : Program) : Console Unit := do
  Console.printLines stdout (listingLines options.showLength program)
  if options.execute then
    let machine ← Console.execute options program
    Console.printLines stdout (finalState machine)

def simulate (stdout : Stdout) (options : Options) (contents : Contents) : Console Unit := do
  Console.log
    (logLine? options.verbosity .info none "sim86" ("loading " ++ options.binary)).toList
  let image ← Transition.ofExcept (contents.mapError (.read options.binary))
  let program ← Console.decode options image
  present stdout options program

/-! ## Responses -/

/-- What a command line leaves behind; the report is about a failure. -/
structure Response where
  exitCode : Nat
  output : String
  report : List String := []
  log : List String := []
  deriving DecidableEq

def Response.ofOutcome (outcome : Outcome String Failure String Unit) : Response where
  exitCode :=
    match outcome.result with
    | .ok () => 0
    | .error _ => 1
  output := outcome.state
  report :=
    match outcome.result with
    | .ok () => []
    | .error failure => failure.report
  log := outcome.events

def versionText : String :=
  "sim86 0.1.0\n"

def helpText : String :=
  lines
    [ "Disassemble (and optionally run) a raw 8086 machine-code image",
      "",
      "Usage: sim86 [OPTIONS] <BINARY>",
      "",
      "Arguments:",
      "  <BINARY>  Raw machine-code bytes to decode",
      "",
      "Options:",
      "  -e, --exec                   Execute the decoded program and print the final machine state",
      "      --show-length            Append each instruction's encoded length to the listing",
      "      --sign-extend            Sign-extend byte immediates when the S bit is set",
      "      --sign-flag <SIGN_FLAG>  How the sign flag is derived from a result: non-zero or high-bit",
      "      --max-steps <MAX_STEPS>  Give up after this many executed instructions",
      "  -v, --verbose...             Increase log verbosity (-v info, -vv debug, -vvv trace)",
      "      --flame <FILE>           Record spans as folded stacks for flamegraph tooling",
      "  -h, --help                   Print help",
      "  -V, --version                Print version" ]

def Interruption.response : Interruption → Response
  | .help => { exitCode := 0, output := helpText }
  | .version => { exitCode := 0, output := versionText }
  | .usage error =>
    { exitCode := 2
      output := ""
      report := ["error: " ++ error.message, "", "Usage: sim86 [OPTIONS] <BINARY>"] }

/-- What the program finds around it, with files of any kind. -/
structure Host (φ : Type) where
  /-- Arguments that ask for no simulation are answered at once. -/
  parse : List String → Except Response Options
  create : φ → String → Except SystemError φ
  read : φ → String → Contents
  stdout : Stdout

namespace Host

variable {φ : Type}

/-- The profile is created before anything is read. -/
def answer (host : Host φ) (files : φ) (options : Options) : Console Unit := do
  let files ← Transition.ofExcept
    (match options.profile? with
    | none => .ok files
    | some path => (host.create files path).mapError (.create path))
  simulate host.stdout options (host.read files options.binary)

def respond (host : Host φ) (files : φ) (arguments : List String) : Response :=
  match host.parse arguments with
  | .error response => response
  | .ok options => .ofOutcome (host.answer files options "")

end Host

/-- A tree of files, and a terminal that takes every line. -/
def FileTree.host : Host FileTree where
  parse := fun arguments => (Options.ofArguments arguments).mapError Interruption.response
  create := FileTree.create
  read := FileTree.read
  stdout := fun _ _ => none

def respond (tree : FileTree) (arguments : List String) : Response :=
  FileTree.host.respond tree arguments

end Mini8086.CommandLine
