import Mini8086.CommandLine.Response

/-!
# The program

Reads the arguments, touches the files they name, and prints the response.
-/

set_option autoImplicit false

namespace Mini8086.CommandLine

/-- The number of an error, whichever sign the system gave it. -/
def errorNumber (code : UInt32) : Nat :=
  min code.toNat (4294967296 - code.toNat)

def SystemError.ofNumber (code : UInt32) (details : String) : SystemError :=
  let number := errorNumber code
  let known : List SystemError := [.notFound, .notDirectory, .isDirectory, .nameTooLong]
  (known.find? (·.code == number)).getD (.other details number)

def SystemError.ofError : IO.Error → SystemError
  | .noFileOrDirectory .. => .notFound
  | .inappropriateType _ code details => .ofNumber code details
  | .invalidArgument _ code details => .ofNumber code details
  | .permissionDenied _ code _ => .ofNumber code "Permission denied"
  | error => .other error.toString 0

def createFile (path : String) : IO (Except SystemError Unit) := do
  try
    IO.FS.writeBinFile path .empty
    return .ok ()
  catch error =>
    return .error (.ofError error)

def readFile (path : String) : IO Contents := do
  try
    let bytes ← IO.FS.readBinFile path
    return .ok bytes.toList
  catch error =>
    return .error (.ofError error)

/-- The response to arguments in the directory the program runs in. What it prints is left to the
caller. -/
def respondHere (arguments : List String) : IO Response := do
  match FileTree.host.parse arguments with
  | .error response => return response
  | .ok options =>
    if let some path := options.profile? then
      if let .error error ← createFile path then
        return .ofOutcome (Transition.fail (.create path error) "")
    let contents ← readFile options.binary
    return .ofOutcome (simulate FileTree.host.stdout options contents "")

end Mini8086.CommandLine

open Mini8086.CommandLine in
def main (arguments : List String) : IO UInt32 := do
  let response ← respondHere arguments
  for line in response.log do
    IO.eprintln line
  IO.print response.output
  for line in response.report do
    IO.eprintln line
  return response.exitCode.toUInt32
