import PackageAlgebra.Files.Error
import PackageAlgebra.Snapshot.Problem
import PackageAlgebra.Text.Pieces

/-!
# Load Errors

Why packages cannot be loaded.

An error tells which patterns or paths it is about. The failures of several
patterns of one load are one error.

## Main definitions

* `LoadError`: The causes.
* `LoadError.message`, `LoadError.patterns`: A cause in words, and what it is about.
-/

namespace PackageAlgebra

/-- Why a snapshot cannot be read. -/
inductive SnapshotError
  -- Its file cannot be opened.
  | file (cause : FileError)
  -- Its text does not have the shape of a snapshot.
  | invalid (problems : List Problem)
  deriving DecidableEq

/-- Why packages cannot be loaded. -/
inductive LoadError
  -- The load was cancelled.
  | cancelled (patterns : List String)
  -- Some patterns stand for nothing.
  | noMatch (patterns : List String)
  -- The root of the source tree is no directory.
  | invalidRoot (path : String)
  -- The snapshot cannot be read.
  | snapshot (path : String) (cause : SnapshotError)
  deriving DecidableEq

namespace LoadError

/-- What an error is about. -/
def patterns : LoadError → List String
  | cancelled patterns => patterns
  | noMatch patterns => patterns
  | invalidRoot path => [path]
  | snapshot path _ => [path]

/-- An error in words. -/
def message : LoadError → String
  | cancelled _ => "load cancelled"
  | noMatch patterns =>
    Text.join "; " (patterns.map fun p => "no packages match " ++ Text.quote p)
  | invalidRoot path => "invalid root path: " ++ path
  | snapshot path cause =>
    "failed to read snapshot " ++ Text.quote path ++ ": " ++
      match cause with
      | .file e => e.message path
      | .invalid problems => Problem.summary problems "Snapshot"

/-- The problems of the snapshot that an error is about. -/
def problems : LoadError → Option (List Problem)
  | snapshot _ (.invalid problems) => some problems
  | _ => none

end LoadError

end PackageAlgebra
