import PackageAlgebra.Package.Walk

/-!
# Package Sets

Sets of packages and the algebra on them.

A set maps ids to nodes and keeps the order in which the ids came in. Two sets
may hold different nodes for one id, since a reduced copy of a node has fewer
imports than the node itself; each operation says whose node it keeps. None of
them changes its arguments.

## Main definitions

* `PackageSet`: Ids with their nodes.
* `PackageSet.ofRoots`, `PackageSet.ofClosure`: Sets from nodes, without and with
  what they import.
* `PackageSet.union`, `subtract`, `intersect`, `symmetricDifference`: The algebra
  of ids.
* `PackageSet.reach`, `incoming`: Which members lead to another set, by any
  number of imports or by one.
* `PackageSet.transitive`: The members with their implied imports removed.
* `PackageSet.sources`, `directDependencies`, `moduleDependencies`, `main`,
  `tests`: Selections.

## Theorems

* `PackageSet.nodup_map_id_sortedNodes_ofRoots`: Nodes filed under their ids have
  different ids.
-/

namespace PackageAlgebra

/-- Ids with their nodes, in the order in which the ids came in. -/
abbrev PackageSet (ρ : Type) := OrderedMap String (Node ρ)

namespace PackageSet

variable {ρ : Type}

/-- The nodes of a set, filed under their ids. -/
def ofRoots (roots : List (Node ρ)) : PackageSet ρ := .ofList (roots.map fun p => (p.id, p))

/-- The ids of a set, sorted. -/
def sortedIds (a : PackageSet ρ) : List String := a.keys.mergeSort fun x y => decide (x ≤ y)

/-- The nodes of a set, sorted by the ids they are filed under. -/
def sortedNodes (a : PackageSet ρ) : List (Node ρ) :=
  (a.entries.mergeSort fun x y => decide (x.1 ≤ y.1)).map Prod.snd

/-- The nodes of a set that is filed under their ids have different ids. -/
theorem nodup_map_id_sortedNodes_ofRoots (roots : List (Node ρ)) :
    ((ofRoots roots).sortedNodes.map Node.id).Nodup := by
  have filed : ∀ e ∈ (ofRoots roots).entries, e.2.id = e.1 := by
    intro e he
    obtain ⟨p, _, rfl⟩ := List.mem_map.1 (OrderedMap.mem_of_mem_entries_ofList he)
    rfl
  have hperm := (ofRoots roots).entries.mergeSort_perm fun x y => decide (x.1 ≤ y.1)
  have hids : (ofRoots roots).sortedNodes.map Node.id =
      ((ofRoots roots).entries.mergeSort fun x y => decide (x.1 ≤ y.1)).map Prod.fst := by
    rw [sortedNodes, List.map_map]
    exact List.map_congr_left fun e he => filed e (List.mem_mergeSort.1 he)
  rw [hids]
  exact (hperm.map Prod.fst).nodup_iff.2 (ofRoots roots).nodup

/-- The ids of either set, with the node of the first that holds one. -/
def union (a b : PackageSet ρ) : PackageSet ρ :=
  b.entries.foldl (fun m e => m.insertIfNew e.1 e.2) a

/-- The ids of any set of a list, with the node of the first that holds one. -/
def unionAll (sets : List (PackageSet ρ)) : PackageSet ρ := sets.foldl union .empty

/-- The ids of the first set that the second does not hold. -/
def subtract (a b : PackageSet ρ) : PackageSet ρ := a.filter fun id _ => !b.contains id

/-- The ids of both sets, with the nodes of the first in the order of the
    second. -/
def intersect (a b : PackageSet ρ) : PackageSet ρ :=
  .ofList (b.keys.filterMap fun id => (a.get? id).map fun p => (id, p))

/-- The ids of exactly one of two sets. -/
def symmetricDifference (a b : PackageSet ρ) : PackageSet ρ :=
  (b.subtract a).entries.foldl (fun m e => m.insert e.1 e.2) (a.subtract b)

/-- The members that can be started. -/
def main (a : PackageSet ρ) : PackageSet ρ := a.filter fun _ p => p.isMain

/-- The members that are test packages. -/
def tests (a : PackageSet ρ) : PackageSet ρ := a.filter fun _ p => isTestPackage p.id

/-- Nodes together with everything they import, directly or not. -/
def ofClosure (catalog : Catalog ρ) (roots : List (Node ρ)) : PackageSet ρ :=
  ofRoots (Node.closure catalog roots)

/-- The nodes met from the members of a set, the last member first. -/
def walkMembers (catalog : Catalog ρ) (a : PackageSet ρ) : List (Node ρ) :=
  Node.closure catalog a.values.reverse

/-- The imports between nodes, as pairs of the importing and the imported id. -/
def edges (catalog : Catalog ρ) (nodes : List (Node ρ)) : List (String × String) :=
  nodes.flatMap fun p => (p.importedIds catalog).map fun id => (p.id, id)

/-- The ids that lead to one of `targets` along edges, the targets included. -/
def leadingTo (edges : List (String × String)) (targets : List String) : List String :=
  walk (fun id => id) (fun id => (edges.filter (·.2 = id)).map Prod.fst)
    (targets ++ edges.map Prod.fst) targets

/-- The members of the first set from which imports lead to the second. -/
def reach (catalog : Catalog ρ) (a b : PackageSet ρ) : PackageSet ρ :=
  let reached := leadingTo (edges catalog (walkMembers catalog a)) b.keys
  a.filter fun id _ => reached.contains id

/-- The second set, and the members of the first that import one of it. -/
def incoming (catalog : Catalog ρ) (a b : PackageSet ρ) : PackageSet ρ :=
  (a.values.filter fun p => (p.importedIds catalog).any b.contains).foldl
    (fun m p => m.insert p.id p) b

/-- The ids that the imports of a node lead to by one or more imports of their
    own. -/
def indirect (catalog : Catalog ρ) (p : Node ρ) : List String :=
  (p.imported catalog).foldl (fun visited c => visited ++ c.dependencies catalog visited) []

/-- A copy of a node without the imports that a longer path implies. -/
def reduced (catalog : Catalog ρ) (p : Node ρ) : Node ρ :=
  let implied := indirect catalog p
  { p.copy with
    imports := p.imports.filter fun _ ref =>
      match catalog.get? ref with
      | some dep => !implied.contains dep.id
      | none => true }

/-- The members without the imports that a longer path implies. -/
def transitive (catalog : Catalog ρ) (a : PackageSet ρ) : PackageSet ρ :=
  .ofList (a.values.map fun p => (p.id, reduced catalog p))

/-- The members that nothing imports which the set leads to. -/
def sources (catalog : Catalog ρ) (a : PackageSet ρ) : PackageSet ρ :=
  let imported := (walkMembers catalog a).flatMap (·.importedIds catalog)
  a.filter fun id _ => !imported.contains id

/-- What the members import and the set does not hold. -/
def directDependencies (catalog : Catalog ρ) (a : PackageSet ρ) : PackageSet ρ :=
  .ofList ((a.values.flatMap (·.imported catalog)).filterMap fun p =>
    if a.contains p.id then none else some (p.id, p))

/-- The set, and all it leads to that belongs to a module of one of its
    members. -/
def moduleDependencies (catalog : Catalog ρ) (a : PackageSet ρ) : PackageSet ρ :=
  let modules := a.values.filterMap Node.moduleName
  ((walkMembers catalog a).filter fun p => p.moduleName.any modules.contains).foldl
    (fun m p => m.insert p.id p) a

end PackageSet

end PackageAlgebra
