/-!
# The files that a program can reach

A path is followed component by component: every component but the last has to lead to a directory,
and what fails first decides.  A file that is found may still refuse to be read.  The program is run
on such trees; what is proved of its responses holds for files of any kind.
-/

set_option autoImplicit false

namespace Mini8086.CommandLine

inductive SystemError where
  | notFound
  | notDirectory
  | isDirectory
  | nameTooLong
  | other (text : String) (code : Nat)
  deriving DecidableEq

/-- A directory, by the names on the way to it from the root, its own name first. -/
abbrev Folder : Type :=
  List String

abbrev Contents : Type :=
  Except SystemError (List UInt8)

inductive Entry where
  | folder (folder : Folder)
  | file (contents : Contents)

structure StoredFile where
  folder : Folder
  name : String
  contents : Contents

/-- The root always exists; a path that does not start there starts in the working directory. -/
structure FileTree where
  folders : List Folder
  files : List StoredFile
  working : Folder

structure Path where
  absolute : Bool
  components : List String
  slashed : Bool

/-- What is left of a path when all its components but the last have been followed. -/
inductive Target where
  | folder
  | name (folder : Folder) (name : String)

namespace SystemError

def text : SystemError → String
  | .notFound => "No such file or directory"
  | .notDirectory => "Not a directory"
  | .isDirectory => "Is a directory"
  | .nameTooLong => "File name too long"
  | .other text _ => text

def code : SystemError → Nat
  | .notFound => 2
  | .notDirectory => 20
  | .isDirectory => 21
  | .nameTooLong => 36
  | .other _ code => code

def message (error : SystemError) : String :=
  error.text ++ " (os error " ++ error.code.repr ++ ")"

end SystemError

namespace Folder

def root : Folder := []

def parent (folder : Folder) : Folder :=
  folder.tail

def child (folder : Folder) (name : String) : Folder :=
  name :: folder

end Folder

/-- Repeated slashes count as one, and a path that starts with one starts at the root. -/
def Path.ofString (text : String) : Path :=
  let parts := text.splitOn "/"
  { absolute := parts.head? = some ""
    components := parts.filter (!·.isEmpty)
    slashed := parts.getLast? = some "" }

namespace FileTree

def pathLimit : Nat := 4095

def nameLimit : Nat := 255

def ofFiles (files : List (String × List UInt8)) : FileTree where
  folders := []
  files := files.map fun file => ⟨Folder.root, file.1, .ok file.2⟩
  working := Folder.root

def place (tree : FileTree) (folder : Folder) (name : String) (contents : List UInt8) : FileTree :=
  { tree with files := ⟨folder, name, .ok contents⟩ :: tree.files }

def entry? (tree : FileTree) (folder : Folder) (name : String) :
    Except SystemError (Option Entry) :=
  if nameLimit < name.utf8ByteSize then
    .error .nameTooLong
  else if tree.folders.contains (folder.child name) then
    .ok (some (.folder (folder.child name)))
  else
    let stored := tree.files.find? fun file => file.folder = folder && file.name = name
    .ok (stored.map fun file => .file file.contents)

def enter (tree : FileTree) (folder : Folder) (component : String) : Except SystemError Folder :=
  if component = "." then
    .ok folder
  else if component = ".." then
    .ok folder.parent
  else do
    match ← tree.entry? folder component with
    | some (.folder child) => .ok child
    | some (.file _) => .error .notDirectory
    | none => .error .notFound

def follow (tree : FileTree) (folder : Folder) : List String → Except SystemError Target
  | [] => .ok .folder
  | [last] => .ok (if last = "." ∨ last = ".." then .folder else .name folder last)
  | component :: next :: rest => do
    let inner ← tree.enter folder component
    tree.follow inner (next :: rest)

def resolve (tree : FileTree) (path : String) : Except SystemError Target :=
  if pathLimit < path.utf8ByteSize then
    .error .nameTooLong
  else
    let path := Path.ofString path
    tree.follow (if path.absolute then .root else tree.working) path.components

def read (tree : FileTree) (path : String) : Contents := do
  match ← tree.resolve path with
  | .folder => .error .isDirectory
  | .name folder name =>
    match ← tree.entry? folder name with
    | some (.folder _) => .error .isDirectory
    | some (.file contents) =>
      if (Path.ofString path).slashed then .error .notDirectory else contents
    | none => .error .notFound

/-- The tree with an empty file at a path, which replaces one that was there. A slash at the end
asks for a directory, and none is created. -/
def create (tree : FileTree) (path : String) : Except SystemError FileTree := do
  match ← tree.resolve path with
  | .folder => .error .isDirectory
  | .name folder name =>
    if (Path.ofString path).slashed then
      .error .isDirectory
    else
      match ← tree.entry? folder name with
      | some (.folder _) => .error .isDirectory
      | some (.file _) | none => .ok (tree.place folder name [])

end FileTree
end Mini8086.CommandLine
