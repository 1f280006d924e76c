import PackageAlgebra.Files.Tree
import PackageAlgebra.Package.Stat

/-!
# Counts of Files

How much source text the files of a package hold.

A file that cannot be read counts nothing and is reported.

## Main definitions

* `Stat.ofPaths`: The counts of a package.
-/

namespace PackageAlgebra

/-- A file that cannot be read, in words. -/
def unreadable (path : String) (e : FileError) : String :=
  "failed to read " ++ Text.quote path ++ ": " ++ e.message path

/-- Count files, and report those that cannot be read. -/
def Source.ofPaths (files : FileSystem) (paths : List String) : Source × List String :=
  paths.foldl (fun (count, reports) path =>
    match files.read path with
    | .ok content => (count + Source.ofBytes content, reports)
    | .error e => (count, reports ++ [unreadable path e])) (0, [])

/-- The counts of a package with modules and other files, and reports about the files
    that cannot be read. -/
def Stat.ofPaths (files : FileSystem) (modules others : List String) : Stat × List String :=
  let (python, reports) := Source.ofPaths files modules
  let (other, later) := Source.ofPaths files others
  (⟨1, python, other⟩, reports ++ later)

end PackageAlgebra
