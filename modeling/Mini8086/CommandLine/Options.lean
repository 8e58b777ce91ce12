import Mini8086.Execution.Run

/-!
# Command line options

Arguments are read from left to right.  The first one that is wrong decides, and asking for help or
for the version ends the reading at once.  Flags may be given once, apart from the one that asks for
a more detailed log; so may options with a value, which follows after `=` or as the next argument.
Behind `--` nothing is an option any more.  The program is run with this reading of arguments; what
is proved of its responses holds for any other one.
-/

set_option autoImplicit false

namespace Mini8086.CommandLine

structure Options where
  binary : String
  execute : Bool
  showLength : Bool
  signExtend : Bool
  settings : RunSettings
  verbosity : Nat
  profile? : Option String
  deriving DecidableEq

inductive UsageError where
  | unknownArgument (argument : String)
  | missingValue (option : String)
  | needlessValue (argument : String)
  | invalidValue (option value : String)
  | repeated (option : String)
  | missingBinary
  deriving DecidableEq

/-- Why the arguments ask for no simulation. -/
inductive Interruption where
  | usage (error : UsageError)
  | help
  | version
  deriving DecidableEq

inductive Flag where
  | execute | showLength | signExtend | verbose | help | version
  deriving DecidableEq

inductive ValueOption where
  | signFlag | maxSteps | profile
  deriving DecidableEq

structure Draft where
  binary? : Option String := none
  execute : Bool := false
  showLength : Bool := false
  signExtend : Bool := false
  signRule? : Option SignRule := none
  stepLimit? : Option Nat := none
  verbosity : Nat := 0
  profile? : Option String := none

def UsageError.message : UsageError → String
  | .unknownArgument argument => "unexpected argument '" ++ argument ++ "' found"
  | .missingValue option => "a value is required for '" ++ option ++ "' but none was supplied"
  | .needlessValue argument => "unexpected value in '" ++ argument ++ "' found"
  | .invalidValue option value => "invalid value '" ++ value ++ "' for '" ++ option ++ "'"
  | .repeated option => "the argument '" ++ option ++ "' cannot be used multiple times"
  | .missingBinary => "the following required arguments were not provided: <BINARY>"

namespace Flag

def all : List Flag :=
  [.execute, .showLength, .signExtend, .verbose, .help, .version]

def longName : Flag → String
  | .execute => "exec"
  | .showLength => "show-length"
  | .signExtend => "sign-extend"
  | .verbose => "verbose"
  | .help => "help"
  | .version => "version"

def shortName? : Flag → Option Char
  | .execute => some 'e'
  | .verbose => some 'v'
  | .help => some 'h'
  | .version => some 'V'
  | .showLength | .signExtend => none

def ofLongName? (name : String) : Option Flag :=
  all.find? fun flag => flag.longName == name

def ofShortName? (name : Char) : Option Flag :=
  all.find? fun flag => flag.shortName? == some name

end Flag

namespace ValueOption

def all : List ValueOption :=
  [.signFlag, .maxSteps, .profile]

def longName : ValueOption → String
  | .signFlag => "sign-flag"
  | .maxSteps => "max-steps"
  | .profile => "flame"

def ofLongName? (name : String) : Option ValueOption :=
  all.find? fun option => option.longName == name

end ValueOption

def parseSignRule? : String → Option SignRule
  | "non-zero" => some .nonZero
  | "high-bit" => some .highBit
  | _ => none

/-- A count in decimal digits, perhaps behind a plus sign. -/
def parseCount? (value : String) : Option Nat :=
  let digits :=
    match value.toList with
    | '+' :: rest => rest
    | characters => characters
  if digits.isEmpty || !digits.all Char.isDigit then
    none
  else
    let count := Nat.ofDigitChars 10 digits 0
    if count < numberLimit then some count else none

namespace Draft

def raiseOnce (flag : Flag) (given : Bool) (raised : Draft) : Except Interruption Draft :=
  if given then .error (.usage (.repeated ("--" ++ flag.longName))) else .ok raised

def raise (draft : Draft) (flag : Flag) : Except Interruption Draft :=
  match flag with
  | .execute => raiseOnce flag draft.execute { draft with execute := true }
  | .showLength => raiseOnce flag draft.showLength { draft with showLength := true }
  | .signExtend => raiseOnce flag draft.signExtend { draft with signExtend := true }
  | .verbose => .ok { draft with verbosity := draft.verbosity + 1 }
  | .help => .error .help
  | .version => .error .version

def assign (draft : Draft) (option : ValueOption) (value : String) : Except Interruption Draft :=
  let name := "--" ++ option.longName
  let refused : Except Interruption Draft := .error (.usage (.invalidValue name value))
  let repeated : Except Interruption Draft := .error (.usage (.repeated name))
  match option with
  | .signFlag =>
    if draft.signRule?.isSome then repeated
    else match parseSignRule? value with
      | some rule => .ok { draft with signRule? := some rule }
      | none => refused
  | .maxSteps =>
    if draft.stepLimit?.isSome then repeated
    else match parseCount? value with
      | some limit => .ok { draft with stepLimit? := some limit }
      | none => refused
  | .profile =>
    if draft.profile?.isSome then repeated
    else if value.isEmpty then refused
    else .ok { draft with profile? := some value }

/-- Takes an argument that is no option; there is room for one. -/
def addPositional (draft : Draft) (argument : String) : Except Interruption Draft :=
  if draft.binary?.isSome then .error (.usage (.unknownArgument argument))
  else if argument.isEmpty then .error (.usage (.invalidValue "<BINARY>" argument))
  else .ok { draft with binary? := some argument }

/-- Raises the flags of an argument such as `-ev`. -/
def raiseShort (draft : Draft) (names : List Char) : Except Interruption Draft :=
  names.foldlM
    (fun draft name =>
      match Flag.ofShortName? name with
      | some flag => draft.raise flag
      | none => .error (.usage (.unknownArgument ("-" ++ name.toString))))
    draft

def options (draft : Draft) : Except Interruption Options :=
  match draft.binary? with
  | none => .error (.usage .missingBinary)
  | some binary =>
    .ok
      { binary
        execute := draft.execute
        showLength := draft.showLength
        signExtend := draft.signExtend
        settings :=
          { stepLimit := draft.stepLimit?.getD 1000000
            signRule := draft.signRule?.getD .nonZero }
        verbosity := draft.verbosity
        profile? := draft.profile? }

end Draft

inductive Argument where
  | positional
  | short (names : List Char)
  | long (name : String) (value? : Option String)

/-- A single `-` is no option. -/
def Argument.ofString (argument : String) : Argument :=
  match argument.toList with
  | '-' :: '-' :: characters =>
    let name := String.ofList (characters.takeWhile (· != '='))
    match characters.dropWhile (· != '=') with
    | _ :: value => .long name (some (String.ofList value))
    | [] => .long name none
  | '-' :: name :: names => .short (name :: names)
  | _ => .positional

def isSeparateValue (argument : String) : Bool :=
  match argument.toList with
  | '-' :: _ :: _ => false
  | _ => true

def readArguments (draft : Draft) : List String → Except Interruption Draft
  | [] => .ok draft
  | argument :: rest =>
    if argument = "--" then
      rest.foldlM Draft.addPositional draft
    else
      match Argument.ofString argument with
      | .positional => do
        let draft ← draft.addPositional argument
        readArguments draft rest
      | .short names => do
        let draft ← draft.raiseShort names
        readArguments draft rest
      | .long name value? =>
        match Flag.ofLongName? name, ValueOption.ofLongName? name with
        | some flag, _ =>
          if value?.isSome then
            .error (.usage (.needlessValue argument))
          else do
            let draft ← draft.raise flag
            readArguments draft rest
        | none, some option =>
          match value?, rest with
          | some value, rest => do
            let draft ← draft.assign option value
            readArguments draft rest
          | none, value :: rest =>
            if isSeparateValue value then do
              let draft ← draft.assign option value
              readArguments draft rest
            else
              .error (.usage (.missingValue argument))
          | none, [] => .error (.usage (.missingValue argument))
        | none, none => .error (.usage (.unknownArgument argument))

def Options.ofArguments (arguments : List String) : Except Interruption Options := do
  let draft ← readArguments {} arguments
  draft.options

end Mini8086.CommandLine
