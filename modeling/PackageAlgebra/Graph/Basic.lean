import PackageAlgebra.Package.Set

/-!
# Dependency Graphs

The graph that the members of a package set form among themselves. No two
members have one id, which is a field of the type.

An edge of the graph is a direct import between two members. What lies above or
below a member is counted along all imports, including those that pass through
packages outside the set; only members are counted, each once, and a member
never counts for itself.

## Main definitions

* `allImports`: The ids that each node leads to.
* `GraphNode`: A member with its edges and its counts.
* `Graph.ofSet`: The graph of a set.
-/

namespace PackageAlgebra

/-- The counts of several packages together. -/
def totalStat (stats : List Stat) : Stat := stats.sum

/-- A member of a graph. -/
structure GraphNode where
  -- The id of the package.
  id : String
  -- Its own counts.
  stat : Stat
  -- The counts of the members that lead to it.
  up : Stat
  -- The counts of the members that it leads to.
  down : Stat
  -- The members that it imports directly, sorted.
  imports : List String

/-- The members of a set with their edges. -/
structure Graph where
  -- The members, sorted by id.
  nodes : List GraphNode
  -- The counts of all members together.
  stat : Stat
  -- No two members have one id.
  nodup_ids : (nodes.map GraphNode.id).Nodup

/-- A list without repetitions, the first occurrences kept. -/
def distinct (xs : List String) : List String :=
  xs.foldl (fun seen x => if seen.contains x then seen else seen ++ [x]) []

/-- Sort ids by their characters. -/
def sortIds (ids : List String) : List String := ids.mergeSort fun x y => decide (x ≤ y)

variable {ρ : Type}

/-- The ids that each node leads to, for the members of a set and everything they
    import. No node is counted as leading to itself. -/
def allImports (catalog : Catalog ρ) (a : PackageSet ρ) : OrderedMap String (List String) :=
  .ofList ((a.walkMembers catalog).map fun p =>
    (p.id, (p.dependencies catalog []).filter (· ≠ p.id)))

namespace Graph

/-- The graph of a set. The members are filed under their own ids. -/
def ofSet (catalog : Catalog ρ) (a : PackageSet ρ) : Graph :=
  let leads := allImports catalog a
  let below (id : String) : List String := (leads.get? id).getD []
  let filed := PackageSet.ofRoots a.values
  let members := filed.sortedNodes
  { nodes := members.map fun p =>
      { id := p.id
        stat := p.stat
        up := totalStat ((members.filter fun q => (below q.id).contains p.id).map Node.stat)
        down := totalStat ((members.filter fun q => (below p.id).contains q.id).map Node.stat)
        imports := sortIds (distinct ((p.importedIds catalog).filter filed.contains)) }
    stat := totalStat (a.values.map Node.stat)
    nodup_ids := by
      rw [List.map_map]
      exact PackageSet.nodup_map_id_sortedNodes_ofRoots a.values }

end Graph

end PackageAlgebra
