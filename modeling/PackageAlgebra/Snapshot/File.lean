import PackageAlgebra.Calculator.Error
import PackageAlgebra.Files.Tree
import PackageAlgebra.Snapshot.Basic

/-!
# Snapshot Files

Reading a snapshot from a file.

A file that cannot be opened and a text that is no snapshot are errors of a load. A file
that is not text, and a path that no file can have, are faults.

## Main definitions

* `Snapshot.ofFile`: The records of a snapshot file.
-/

namespace PackageAlgebra.Snapshot

/-- The records of a snapshot file. -/
def ofFile (files : FileSystem) (path : String) : Except Failure (List PackageRecord) :=
  let failed (cause : SnapshotError) : Failure := .error (.load (.snapshot path cause))
  if path.toList.contains '\x00' then .error (.fault .nullByte)
  else
    match files.read path with
    | .error e => .error (failed (.file e))
    | .ok content =>
      match String.fromUTF8? ⟨content.toArray⟩ with
      | none => .error (.fault .undecodable)
      | some text =>
        match read text with
        | .error problems => .error (failed (.invalid problems))
        | .ok records => .ok records

end PackageAlgebra.Snapshot
