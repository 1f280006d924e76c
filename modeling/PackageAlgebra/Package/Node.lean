import PackageAlgebra.OrderedMap
import PackageAlgebra.Package.Stat
import PackageAlgebra.Text.Pieces

/-!
# Packages

A package as a node of an import graph.

A node knows its imports by reference, not by value: an import graph may have
cycles, and a copy of a node with fewer imports must still lead to the same
nodes. What a reference is depends on where the nodes come from; a `Catalog`
says which node each reference leads to.

## Main definitions

* `Node`: A package with its imports.
* `Node.make`: A node without imports, its name chosen from its id if need be.
* `Catalog`: The nodes that references lead to.
* `Catalog.ofMap`: The catalog of a map.
* `isTestPackage`: Whether an id is that of a test package.
-/

namespace PackageAlgebra

/-- A package with its imports. -/
structure Node (ρ : Type) where
  -- What identifies the package.
  id : String
  -- What it is called.
  name : String
  -- The module that it belongs to, if any.
  moduleName : Option String
  -- How much source text it holds.
  stat : Stat
  -- The paths of its files.
  files : List String
  -- Whether it can be started as a program.
  entrypoint : Bool
  -- Whether it belongs to the standard library.
  std : Bool
  -- Its imports: each import key with a reference to the imported package.
  imports : OrderedMap String ρ

/-- The nodes that references lead to. Their ids are known, which bounds every
    walk along imports. -/
structure Catalog (ρ : Type) where
  -- The node that a reference leads to, if it leads anywhere.
  get? : ρ → Option (Node ρ)
  -- The ids of the nodes.
  ids : List String
  -- No reference leads to a node with another id.
  mem_ids : ∀ {ref : ρ} {p : Node ρ}, get? ref = some p → p.id ∈ ids

/-- The catalog of a map from references to nodes. -/
def Catalog.ofMap {ρ : Type} [DecidableEq ρ] (m : OrderedMap ρ (Node ρ)) : Catalog ρ where
  get? := m.get?
  ids := m.values.map Node.id
  mem_ids h := List.mem_map_of_mem (OrderedMap.mem_values_of_get? h)

namespace Node

variable {ρ : Type}

/-- What a package is called if nothing else is said: the last part of its id. -/
def defaultName (id : String) : String := Text.afterLast '.' (Text.afterLast '/' id)

/-- A node without imports. An empty name stands for the default one. -/
def make (id name : String) (moduleName : Option String) (stat : Stat) (files : List String)
    (entrypoint std : Bool) : Node ρ where
  id := id
  name := if name = "" then defaultName id else name
  moduleName := moduleName
  stat := stat
  files := files
  entrypoint := entrypoint
  std := std
  imports := .empty

/-- A copy of a node. An empty name falls back to the default one. -/
def copy (p : Node ρ) : Node ρ :=
  { p with name := if p.name = "" then defaultName p.id else p.name }

/-- Add an import under a key; an empty key stands for the imported id. -/
def addImport (p : Node ρ) (key : String) (target : String) (ref : ρ) : Node ρ :=
  { p with imports := p.imports.insert (if key = "" then target else key) ref }

/-- Whether the package can be started, by its flag or by its name. -/
def isMain (p : Node ρ) : Bool := p.entrypoint || p.name = "main"

/-- The nodes that a node imports, in the order of its keys. A reference that
    leads nowhere is skipped. -/
def imported (catalog : Catalog ρ) (p : Node ρ) : List (Node ρ) :=
  p.imports.values.filterMap catalog.get?

/-- The ids that a node imports, in the order of its keys. -/
def importedIds (catalog : Catalog ρ) (p : Node ρ) : List String :=
  (p.imported catalog).map Node.id

end Node

/-- Whether an id is that of a test package: by its ending, or by its last part. -/
def isTestPackage (id : String) : Bool :=
  let last := Text.afterLast '.' id
  Text.endsWith ".test" id || Text.endsWith "_test" id || Text.endsWith ".test]" id ||
    Text.beginsWith "test_" last || last = "tests" || last = "conftest"

end PackageAlgebra
