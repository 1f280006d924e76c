import PackageAlgebra.Files.Error
import PackageAlgebra.Files.Path

/-!
# Directories

Files in directories, and what a path leads to.

A path is followed name by name from the root, or from the working directory.
Every name but the last has to lead to a directory, the last one too if a slash
follows it. Two points lead to the directory above, which of the root is the root.

## Main definitions

* `FileTree`: A file or a directory.
* `FileTree.graft`: Put a file or a directory below another.
* `FileSystem`: A directory that is the root, with a working directory.
* `FileSystem.find`: What a path leads to.
* `FileSystem.read`: The content of a file.
-/

namespace PackageAlgebra

/-- A file or a directory. -/
inductive FileTree
  -- A file with its content.
  | file (content : List UInt8)
  -- A directory with the names in it.
  | directory (entries : List (String × FileTree))

namespace FileTree

/-- What a name in a directory leads to. -/
def child? (entries : List (String × FileTree)) (name : String) : Option FileTree :=
  (entries.find? fun e => e.1 = name).map Prod.snd

/-- The entries of a directory, none of a file. -/
def entries : FileTree → List (String × FileTree)
  | file _ => []
  | directory entries => entries

/-- Put a name into a directory, in place of what it led to. -/
def setEntry (name : String) (t : FileTree) : List (String × FileTree) → List (String × FileTree)
  | [] => [(name, t)]
  | e :: rest => if e.1 = name then (name, t) :: rest else e :: setEntry name t rest

/-- Put a file or a directory where names lead, directories being made on the way. -/
def graft (t : FileTree) : List String → FileTree → FileTree
  | [], _ => t
  | name :: names, whole =>
    let below := (child? whole.entries name).getD (.directory [])
    .directory (setEntry name (graft t names below) whole.entries)

end FileTree

/-- A directory that is the root, with a working directory. -/
structure FileSystem where
  -- The root.
  root : FileTree
  -- The path of the working directory.
  workingDirectory : String

namespace FileSystem

/-- How many bytes a name may have. -/
def nameLimit : Nat := 255

/-- How many bytes a path may have, its end included. -/
def pathLimit : Nat := 4096

/-- Follow names from a directory; `above` are the directories above it, the nearest
    first. -/
def follow : List FileTree → FileTree → List String → Except FileError FileTree
  | _, here, [] => .ok here
  | above, here, name :: names =>
    match here with
    | .file _ => .error .notDirectory
    | .directory entries =>
      if name = "." then follow above here names
      else if name = ".." then
        match above with
        | [] => follow [] here names
        | up :: above => follow above up names
      else if nameLimit < name.utf8ByteSize then .error .nameTooLong
      else
        match FileTree.child? entries name with
        | none => .error .missing
        | some t => follow (here :: above) t names

/-- What a path leads to. -/
def find (fs : FileSystem) (path : String) : Except FileError FileTree :=
  if path = "" then .error .missing
  else if pathLimit ≤ path.utf8ByteSize then .error .nameTooLong
  else
    let names := Path.parts (Path.join fs.workingDirectory path)
    follow [] fs.root (if Text.endsWith "/" path then names ++ ["."] else names)

/-- Whether a path leads to a directory. -/
def isDirectory (fs : FileSystem) (path : String) : Bool :=
  match fs.find path with
  | .ok (.directory _) => true
  | _ => false

/-- The content of the file that a path leads to. -/
def read (fs : FileSystem) (path : String) : Except FileError (List UInt8) :=
  match fs.find path with
  | .error e => .error e
  | .ok (.directory _) => .error .isDirectory
  | .ok (.file content) => .ok content

/-- A path from the root on. -/
def absolute (fs : FileSystem) (path : String) : String :=
  Path.absolute fs.workingDirectory path

end FileSystem

end PackageAlgebra
