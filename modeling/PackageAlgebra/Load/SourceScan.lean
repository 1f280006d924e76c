import PackageAlgebra.Files.Scan
import PackageAlgebra.Load.Universe
import PackageAlgebra.Script.Imports

/-!
# Universes of Source Trees

The packages of a source tree.

Every module is a package. The file that stands for a directory brings the other files
of the directory with it. An import leads to the longest name in the tree that one of
its candidates begins with; if none has such a name, it leads out of the tree, to the
package that the last candidate begins with. What lies outside is of the standard
library or a package without files.

Imports that are made only while types are checked count under a tag of their own. A
module that does not exist under a variant is not imported there, nor is a module
imported by itself.

## Main definitions

* `SourceScan`: The modules of a source tree and the files beside them.
* `SourceScan.ofFiles`: The modules among files.
* `SourceScan.target?`: What an import leads to.
* `Universe.ofScan`: The universe of a variant.
-/

namespace PackageAlgebra

open Script (Import ModuleImports)

/-- A module of a source tree. -/
structure SourceModule where
  -- Its file.
  file : SourceFile
  -- What it imports.
  imports : ModuleImports

/-- The modules of a source tree and the files beside them. -/
structure SourceScan where
  -- The modules, under their names.
  modules : OrderedMap String SourceModule
  -- The files without a module, under the names of their packages.
  otherFiles : OrderedMap String (List SourceFile)

/-- The tag under which imports count that are made only while types are checked. -/
def typingTag : String := "typing"

/-- Texts in order, each once. -/
def sortedOnce (names : List String) : List String :=
  names.eraseDups.mergeSort fun a b => decide (a ≤ b)

namespace SourceModule

/-- What a module imports, read from its file. A file that is not text or not well
    formed imports nothing. -/
def ofFile (name : String) (file : SourceFile) : SourceModule where
  file := file
  imports :=
    match String.fromUTF8? ⟨file.content.toArray⟩ with
    | none => ⟨[], false⟩
    | some text =>
      match Script.readImports name file.isPackage text with
      | .ok imports => imports
      | .error _ => ⟨[], false⟩

end SourceModule

namespace SourceScan

/-- The module that a file holds, if it holds one. -/
def moduleOf? (file : SourceFile) : Option (String × SourceModule) :=
  if file.language = .python then file.module.map fun name => (name, .ofFile name file) else none

/-- File a file without a module under its package. -/
def addOther (others : OrderedMap String (List SourceFile)) (file : SourceFile) :
    OrderedMap String (List SourceFile) :=
  match file.package with
  | some package =>
    if file.language = .python then others
    else others.insert package ((others.get? package).getD [] ++ [file])
  | none => others

/-- The modules among files. Of two files with one module the later one counts. -/
def ofFiles (files : List SourceFile) : SourceScan where
  modules := .ofList (files.filterMap moduleOf?)
  otherFiles := files.foldl addOther .empty

/-- The names that a dotted name begins with, the longest first. -/
def namePrefixes (name : String) : List String :=
  let parts := Text.split '.' name
  ((List.range parts.length).map fun n => Text.join "." (parts.take (n + 1))).reverse

/-- The module that an import leads to, if it leads to one. -/
def target? (scan : SourceScan) (ref : Import) : Option String :=
  (ref.candidates.flatMap namePrefixes).find? scan.modules.contains

/-- The package outside the tree that an import leads to if it leads to no module, if it
    has a name. -/
def outside? (ref : Import) : Option String :=
  ref.candidates.getLast?.bind fun name => nonempty? (Text.beforeFirst '.' name)

/-- Whether a module exists under a variant. -/
def includes (scan : SourceScan) (v : Variant) (name : String) : Bool :=
  scan.modules.contains name && (v.tests || !isTestPackage name)

/-- The imports of a module that count under a variant. -/
def activeImports (v : Variant) (m : SourceModule) : List Import :=
  m.imports.imports.filter fun ref => !ref.typeChecking || v.tags.contains typingTag

/-- The package that an import of a module leads to under a variant, if any. -/
def imported? (scan : SourceScan) (v : Variant) (name : String) (ref : Import) : Option String :=
  match scan.target? ref with
  | some target => if scan.includes v target && target ≠ name then some target else none
  | none => outside? ref

/-- The packages that a module imports under a variant. -/
def importedIds (scan : SourceScan) (v : Variant) (name : String) (m : SourceModule) :
    List String :=
  (activeImports v m).filterMap (scan.imported? v name)

/-- The files of the package that a module is: its own, and those beside it if it
    stands for a directory. -/
def filesBeside (scan : SourceScan) (name : String) (m : SourceModule) : List SourceFile :=
  if m.file.isPackage then (scan.otherFiles.get? name).getD [] else []

/-- The counts of files. -/
def countFiles (files : List SourceFile) : Source :=
  (files.map fun f => Source.ofBytes f.content).foldl (· + ·) 0

/-- The node of a module, without imports. -/
def moduleNode (scan : SourceScan) (name : String) (m : SourceModule) : Node NodeRef :=
  let others := scan.filesBeside name m
  .make name "" (some (Text.beforeFirst '.' name))
    ⟨1, countFiles [m.file], countFiles others⟩ (m.file.path :: others.map SourceFile.path)
    m.imports.entrypoint false

/-- The node of a package of the standard library. -/
def stdNode (name : String) : Node NodeRef := .make name "" none .single [] false true

/-- The node of a package that is neither in the tree nor in the standard library. -/
def leafNode (name : String) : Node NodeRef := .make name "" (some name) .single [] false false

end SourceScan

/-- The universe of a variant: the standard library, the modules, and the packages
    outside that they import. -/
def Universe.ofScan (stdNames : List String) (scan : SourceScan) (v : Variant) : Universe :=
  let existing := scan.modules.entries.filter fun e => scan.includes v e.1
  let std : Universe :=
    .ofList ((sortedOnce stdNames).map fun name => (name, SourceScan.stdNode name))
  let known : Universe :=
    existing.foldl (fun u e => u.insert e.1 (scan.moduleNode e.1 e.2)) std
  let ids := existing.flatMap fun e => scan.importedIds v e.1 e.2
  let all : Universe := ids.foldl (fun u id => u.insertIfNew id (SourceScan.leafNode id)) known
  all.mapValues fun id p =>
    match scan.modules.get? id with
    | some m =>
      if scan.includes v id then
        { p with imports := .ofList ((scan.importedIds v id m).map fun i => (i, ⟨v, i⟩)) }
      else p
    | none => p

end PackageAlgebra
