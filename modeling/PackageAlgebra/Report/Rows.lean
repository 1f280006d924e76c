import PackageAlgebra.Graph.Cut
import PackageAlgebra.Template.Basic

/-!
# Rows of a Report

A line for each package of a set, or for each row of a cut analysis, made from a
template.

## Main definitions

* `Report.packageRows`: The lines of a set, sorted by id.
* `Report.cutLines`: The lines of a cut analysis.
* `Report.packageTemplate`, `Report.cutTemplate`: The templates used by default.
-/

namespace PackageAlgebra.Report

/-- The template of packages unless something else is said. -/
def packageTemplate : String := "\x7bid\x7d"

/-- The template of rows of a cut analysis unless something else is said. -/
def cutTemplate : String :=
  "\x7bid\x7d\tin:\x7bin_degree\x7d\tpkgs:\x7bcut.package_count\x7d" ++
    "\tsize:\x7bcut.all_files.size\x7d\tloc:\x7bcut.python.lines\x7d"

/-- The values that the fields for a package stand for. -/
def packageValues {ρ : Type} (catalog : Catalog ρ) (p : Node ρ) :
    List (String × TemplateValue) :=
  [("id", .text p.id), ("name", .text p.name), ("module", .text (p.moduleName.getD "")),
    ("stat", .stat p.stat),
    ("imports", .text (Text.join "," (sortIds (p.importedIds catalog))))]

/-- The lines of a set, sorted by id. -/
def packageRows {ρ : Type} (catalog : Catalog ρ) (a : PackageSet ρ) (template : String) :
    Except TemplateError (List String) :=
  a.sortedNodes.mapM fun p => Template.fill template (packageValues catalog p)

/-- The values that the fields for a row of a cut analysis stand for. -/
def cutValues (r : CutRow) : List (String × TemplateValue) :=
  [("id", .text r.id), ("in_degree", .number r.inDegree), ("out_degree", .number r.outDegree),
    ("stat", .stat r.stat), ("cut", .stat r.cut)]

/-- The lines of a cut analysis. -/
def cutLines (rows : List CutRow) (template : String) : Except TemplateError (List String) :=
  rows.mapM fun r => Template.fill template (cutValues r)

end PackageAlgebra.Report
