import PackageAlgebra.Text.Pieces

/-!
# Paths

Arithmetic on the paths of files.

A path is a text of names between slashes. Nothing here looks at files: a name
with two points leads back to the name before it, whatever there is, and a name with
one point leads nowhere.

## Main definitions

* `Path.parts`: The names in a path.
* `Path.settle`: Names without those that lead back or nowhere.
* `Path.absolute`: A path from the root on.
* `Path.relative?`: How a path is reached from another.
* `Path.splitExtension`: A path without its extension, and the extension.

## Theorems

* `Path.relativeParts_append`: What lies below a directory is reached by its names.
-/

namespace PackageAlgebra.Path

/-- The names in a path. -/
def parts (path : String) : List String := (Text.split '/' path).filter (· ≠ "")

/-- Whether a path starts at the root. -/
def isAbsolute (path : String) : Bool := Text.beginsWith "/" path

/-- A path below a directory. A path that starts at the root stays as it is. -/
def join (dir path : String) : String :=
  if isAbsolute path then path
  else if dir = "" ∨ Text.endsWith "/" dir then dir ++ path
  else dir ++ "/" ++ path

/-- Go on by a name from the names so far, the last one first. -/
def settleStep (before : List String) (name : String) : List String :=
  if name = "." then before else if name = ".." then before.tail else name :: before

/-- Names from the root on, without those that lead back or nowhere. -/
def settle (names : List String) : List String := (names.foldl settleStep []).reverse

/-- What a path from the root begins with: two slashes are kept, more count as
    one. -/
def rootMark (path : String) : String :=
  if Text.beginsWith "//" path && !Text.beginsWith "///" path then "//" else "/"

/-- A path from the root on, seen from a directory. -/
def absolute (dir path : String) : String :=
  let full := join dir path
  rootMark full ++ Text.join "/" (settle (parts full))

/-- How names are reached from other names, both from the root on. -/
def relativeParts : List String → List String → List String
  | s :: start, n :: names =>
    if s = n then relativeParts start names
    else List.replicate (start.length + 1) ".." ++ n :: names
  | start, names => List.replicate start.length ".." ++ names

/-- What lies below a directory is reached by its names. -/
theorem relativeParts_append (start names : List String) :
    relativeParts start (start ++ names) = names := by
  induction start with
  | nil => cases names <;> simp [relativeParts]
  | cons s start ih => simp [relativeParts, ih]

/-- A path of names, a point if there are none. -/
def ofParts (names : List String) : String :=
  if names.isEmpty then "." else Text.join "/" names

/-- How a path is reached from another, both seen from a directory. The empty path
    is none. -/
def relative? (dir start path : String) : Option String :=
  if path = "" then none
  else some (ofParts (relativeParts (parts (absolute dir start)) (parts (absolute dir path))))

/-- The place of the extension in the last name of a path: at its last point, if
    something other than points comes before it. -/
def extensionOf (name : List Char) : Option (List Char × List Char) :=
  match Text.cutLast '.' name with
  | some (stem, ext) => if stem.all (· = '.') then none else some (stem, '.' :: ext)
  | none => none

/-- A path without its extension, and the extension with its point. -/
def splitExtension (path : String) : String × String :=
  let (above, name) := match Text.cutLast '/' path.toList with
    | some (above, name) => (above ++ ['/'], name)
    | none => ([], path.toList)
  match extensionOf name with
  | some (stem, ext) => (String.ofList (above ++ stem), String.ofList ext)
  | none => (path, "")

end PackageAlgebra.Path
