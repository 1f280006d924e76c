import PackageAlgebra.Context.Basic
import PackageAlgebra.Package.Node
import PackageAlgebra.Text.Lowercase

/-!
# Universes

All packages that exist under some settings.

Which packages exist, and what they import, depends on whether tests are wanted
and on the active tags, but not on the case, the order or the repetition of the
tags. A `Variant` is that part of a configuration. Each variant has a universe
of its own; a reference to a node names the variant and the id, so nodes of
several universes may meet in one package set. A tag that is repeated counts
once. If it counted each time, a universe could be there twice, but its nodes
would only differ in which of the two they are of.

A loader builds a universe when it is first asked for it and keeps it.

## Main definitions

* `Variant`: What a universe depends on.
* `NodeRef`: A reference to a node of a universe.
* `Universe`: The packages of a variant.
* `UniverseTable`: The universes that have been built.
* `UniverseTable.catalog`: Their nodes.

## Theorems

* `UniverseTable.get?_catalog`: A reference leads into the universe that it names.
-/

namespace PackageAlgebra

/-- What a universe depends on. -/
structure Variant where
  -- Whether tests are wanted.
  tests : Bool
  -- The active tags, in lower case, sorted, each once.
  tags : List String
  deriving DecidableEq

/-- The active tags of a configuration, in lower case, sorted, each once, so that equal universes
    are the same one. -/
def LoadConfig.activeTags (config : LoadConfig) : List String :=
  ((config.tags.map Text.lower).eraseDups).mergeSort fun x y => decide (x ≤ y)

/-- What the universe of a configuration depends on. -/
def LoadConfig.variant (config : LoadConfig) : Variant := ⟨config.tests, config.activeTags⟩

/-- A reference to a node of a universe. -/
structure NodeRef where
  -- The variant of the universe.
  variant : Variant
  -- The id of the node.
  id : String
  deriving DecidableEq

/-- The packages of a variant, under their ids. -/
abbrev Universe := OrderedMap String (Node NodeRef)

/-- The universes that have been built. -/
abbrev UniverseTable := OrderedMap Variant Universe

namespace UniverseTable

/-- The node that a reference leads to. -/
def find? (t : UniverseTable) (ref : NodeRef) : Option (Node NodeRef) :=
  (t.get? ref.variant).bind fun u => u.get? ref.id

/-- The nodes of all universes that have been built. -/
def catalog (t : UniverseTable) : Catalog NodeRef where
  get? := t.find?
  ids := t.values.flatMap fun u => u.values.map Node.id
  mem_ids h := by
    obtain ⟨u, hu, hp⟩ := Option.bind_eq_some_iff.1 h
    exact List.mem_flatMap.2
      ⟨u, OrderedMap.mem_values_of_get? hu, List.mem_map_of_mem (OrderedMap.mem_values_of_get? hp)⟩

/-- A reference leads into the universe that it names. -/
theorem get?_catalog {t : UniverseTable} {ref : NodeRef} {u : Universe}
    (h : t.get? ref.variant = some u) : t.catalog.get? ref = u.get? ref.id := by
  change t.find? ref = u.get? ref.id
  rw [find?, h, Option.bind_some]

/-- The universe of a variant, built unless it has been built before. -/
def require (t : UniverseTable) (v : Variant) (build : Variant → Universe) :
    Universe × UniverseTable :=
  match t.get? v with
  | some u => (u, t)
  | none => (build v, t.insert v (build v))

end UniverseTable

end PackageAlgebra
