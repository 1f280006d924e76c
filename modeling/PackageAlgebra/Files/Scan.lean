import PackageAlgebra.Files.Naming
import PackageAlgebra.Files.Tree

/-!
# Scans of Source Trees

The files below a directory, each with its language and its names.

Of every directory come its files first, by name, and then the directories in it, by
name. Directories that hold no sources of their own, such as those of tools and of
built packages, are passed over.

A file with a module is in the package that the module is in; any other file is in
the package of its directory.

## Main definitions

* `isPassedOver`: Whether a directory is passed over.
* `FileTree.filesBelow`: The files below a directory.
* `SourceFile`: A file of a source tree.
* `SourceFile.scan`: The files of a source tree.
-/

namespace PackageAlgebra

/-- The directories that are passed over by name. -/
def passedOver : List String :=
  [".git", ".hg", ".tox", ".nox", ".venv", "venv", "node_modules", "dist", "build", "__pycache__",
    ".mypy_cache", ".pytest_cache"]

/-- Whether a directory is passed over. -/
def isPassedOver (name : String) : Bool :=
  passedOver.contains name || Text.endsWith ".egg-info" name

/-- A file in a directory: the names that lead to it, and its content. -/
abbrev FoundFile := List String × List UInt8

/-- An entry of a directory with the files that it leads to. -/
structure FoundEntry where
  -- Its name.
  name : String
  -- Whether it is a directory.
  isDirectory : Bool
  -- The files that it leads to.
  files : List FoundFile

/-- The files of a directory, given those of its entries: its own come before those of
    the directories in it. -/
def gather (entries : List FoundEntry) : List FoundFile :=
  let sorted := entries.mergeSort fun a b => decide (a.name ≤ b.name)
  (sorted.filter fun e => !e.isDirectory).flatMap FoundEntry.files
    ++ (sorted.filter fun e => e.isDirectory && !isPassedOver e.name).flatMap FoundEntry.files

/-- The entries of a directory with the files that they lead to, given the names that
    lead to the directory. -/
def FileTree.foundIn (above : List String) : List (String × FileTree) → List FoundEntry
  | [] => []
  | (name, .file content) :: rest =>
    ⟨name, false, [(above ++ [name], content)]⟩ :: FileTree.foundIn above rest
  | (name, .directory entries) :: rest =>
    ⟨name, true, gather (FileTree.foundIn (above ++ [name]) entries)⟩ :: FileTree.foundIn above rest

/-- The files below a directory. -/
def FileTree.filesBelow (t : FileTree) : List FoundFile := gather (FileTree.foundIn [] t.entries)

/-- A file of a source tree. -/
structure SourceFile where
  -- Its path.
  path : String
  -- Its path below the root.
  below : String
  -- Its language.
  language : Language
  -- The package that it is in, if any.
  package : Option String
  -- The module that it holds, if any.
  module : Option String
  -- Whether it stands for its package.
  isPackage : Bool
  -- Its content.
  content : List UInt8

/-- A name, unless it is empty. -/
def nonempty? (name : String) : Option String := if name = "" then none else some name

namespace SourceFile

/-- The file that names below a root lead to. -/
def ofFound (root : String) (found : FoundFile) : SourceFile :=
  let below := Text.join "/" found.1
  let language := Language.ofPath below
  let isModule := language = .python
  let module := if isModule then moduleName below else ""
  let package := if isModule then packageName module
    else directoryName (Path.ofParts found.1.dropLast)
  { path := Path.join root below
    below := below
    language := language
    package := nonempty? package
    module := nonempty? module
    isPackage := found.1.getLast? = some (packageStem ++ ".py")
    content := found.2 }

/-- The files of a source tree, given the path of its root and what it leads to. -/
def scan (root : String) (t : FileTree) : List SourceFile :=
  t.filesBelow.map (ofFound root)

end SourceFile

end PackageAlgebra
