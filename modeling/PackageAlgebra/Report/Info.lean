import PackageAlgebra.Document.Printer
import PackageAlgebra.Graph.Cut

/-!
# Package Listings

Package sets and cuts as data for others to read.

## Main definitions

* `PackageInfo`: What a listing says about a package.
* `packageInfos`: The listing of a set, sorted by id.
* `PackageInfo.document`, `CutRow.document`: Their documents.
* `packagesDocument`, `cutDocument`: The documents of answers.
-/

namespace PackageAlgebra

/-- What a listing says about a package. -/
structure PackageInfo where
  -- The id.
  id : String
  -- The name.
  name : String
  -- The module, if any.
  moduleName : Option String
  -- The ids that it imports, sorted.
  imports : List String
  -- Its counts.
  stat : Stat

/-- What a listing says about a node. -/
def PackageInfo.ofNode {ρ : Type} (catalog : Catalog ρ) (p : Node ρ) : PackageInfo :=
  ⟨p.id, p.name, p.moduleName, sortIds (p.importedIds catalog), p.stat⟩

/-- The listing of a set, sorted by id. -/
def packageInfos {ρ : Type} (catalog : Catalog ρ) (a : PackageSet ρ) : List PackageInfo :=
  a.sortedNodes.map (PackageInfo.ofNode catalog)

/-- Counts over files as a document. -/
def Source.document (s : Source) : Document :=
  .object [("files", .int s.files), ("binary", .int s.binary), ("size", .int s.size),
    ("lines", .int s.lines), ("blank", .int s.blank)]

/-- Counts over packages as a document. -/
def Stat.document (s : Stat) : Document :=
  .object [("package_count", .int s.packageCount), ("python", s.python.document),
    ("other_files", s.otherFiles.document)]

/-- A listed package as a document. -/
def PackageInfo.document (p : PackageInfo) : Document :=
  .object [("id", .text p.id), ("name", .text p.name),
    ("module", match p.moduleName with
      | some m => .text m
      | none => .null),
    ("imports", .list (p.imports.map .text)), ("stat", p.stat.document)]

/-- A row of a cut analysis as a document. -/
def CutRow.document (r : CutRow) : Document :=
  .object [("id", .text r.id), ("in_degree", .int r.inDegree), ("out_degree", .int r.outDegree),
    ("stat", r.stat.document), ("cut", r.cut.document)]

/-- A cut analysis as a document, with the query that it is of. -/
def cutDocument (query : String) (rows : List CutRow) : Document :=
  .object [("expr", .text query), ("rows", .list (rows.map CutRow.document))]

/-- The packages of a query as a document, with the query. -/
def packagesDocument (query : String) (infos : List PackageInfo) : Document :=
  .object [("expr", .text query), ("packages", .list (infos.map PackageInfo.document))]

end PackageAlgebra
