import PackageAlgebra.Document.Reader
import PackageAlgebra.Package.Record
import PackageAlgebra.Snapshot.Checked

/-!
# Snapshots

A dependency graph that has been written down.

A snapshot is a document with a list of package records. All fields but the id
may be left out, and fields that mean nothing here are passed over.

## Main definitions

* `PackageRecord.ofDocument`: Check for a record.
* `Snapshot.ofDocument`: Check for a snapshot.
* `Snapshot.read`: The records of the text of a snapshot.
-/

namespace PackageAlgebra

open Document

/-- Check for counts over files. -/
def Source.ofDocument : Document → Checked Source :=
  asObject {} fun fields => do
    let files ← optional fields "files" 0 asInt
    let binary ← optional fields "binary" 0 asInt
    let size ← optional fields "size" 0 asInt
    let lines ← optional fields "lines" 0 asInt
    let blank ← optional fields "blank" 0 asInt
    return ⟨files, binary, size, lines, blank⟩

/-- Check for counts over packages. -/
def Stat.ofDocument : Document → Checked Stat :=
  asObject {} fun fields => do
    let count ← optional fields "package_count" 0 asInt
    let python ← optional fields "python" {} Source.ofDocument
    let other ← optional fields "other_files" {} Source.ofDocument
    return ⟨count, python, other⟩

/-- Check for counts or nothing. -/
def Stat.ofDocument? : Document → Checked (Option Stat)
  | .null => .sound none
  | d => some <$> Stat.ofDocument d

/-- Check for a record. -/
def PackageRecord.ofDocument : Document → Checked PackageRecord :=
  asObject { id := "" } fun fields => do
    let id ← required fields "id" "" asText
    let name ← optional fields "name" "" asText
    let moduleName ← optional fields "module" none asOptionalText
    let imports ← optional fields "imports" [] (asList asText)
    let files ← optional fields "files" [] (asList asText)
    let stat ← optional fields "stat" none Stat.ofDocument?
    let std ← optional fields "std" false asBool
    let test ← optional fields "test" false asBool
    let entrypoint ← optional fields "entrypoint" false asBool
    let tags ← optional fields "tags" [] (asList asText)
    return { id, name, moduleName, imports, files, stat, std, test, entrypoint, tags }

namespace Snapshot

/-- Check for a snapshot. -/
def ofDocument : Document → Checked (List PackageRecord) :=
  asObject [] fun fields => optional fields "packages" [] (asList PackageRecord.ofDocument)

/-- The records of the text of a snapshot, or what is wrong with it. -/
def read (text : String) : Except (List Problem) (List PackageRecord) :=
  match Document.read text with
  | none => .error [⟨[], .jsonInvalid⟩]
  | some d => (ofDocument d).run

end Snapshot

end PackageAlgebra
