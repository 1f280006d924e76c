import PackageAlgebra.Graph.Basic
import Mathlib.Data.List.Nodup

/-!
# Edges of a Graph

The import relation between the members of a graph.

A graph lists the imports of each member by id, and an analysis works with
positions in the list of members. Since no two members have one id, a position
and an id say the same thing, and the lemmas here translate between the two.

## Main definitions

* `Graph.ids`: The ids of the members.
* `Graph.Imports`: One member imports another.

## Theorems

* `Graph.position_unique`: A member is at one position only.
* `Graph.imports_iff`: The import relation by positions.
-/

namespace PackageAlgebra

namespace Graph

/-- The ids of the members, sorted like these. -/
def ids (g : Graph) : List String := g.nodes.map GraphNode.id

/-- One member of the graph imports another one, or itself. -/
def Imports (g : Graph) (x y : String) : Prop :=
  y ∈ g.ids ∧ ∃ n ∈ g.nodes, n.id = x ∧ y ∈ n.imports

variable {g : Graph} {i j : Nat} {n m : GraphNode}

theorem mem_ids_of_getElem? (h : g.nodes[i]? = some n) : n.id ∈ g.ids :=
  List.mem_map_of_mem (List.mem_of_getElem? h)

theorem exists_position_of_mem_ids {x : String} (h : x ∈ g.ids) :
    ∃ (i : Nat) (n : GraphNode), g.nodes[i]? = some n ∧ n.id = x := by
  rcases List.mem_map.1 h with ⟨n, hn, hid⟩
  rcases List.getElem?_of_mem hn with ⟨i, hi⟩
  exact ⟨i, n, hi, hid⟩

/-- A member is at one position only. -/
theorem position_unique (hi : g.nodes[i]? = some n) (hj : g.nodes[j]? = some m)
    (hid : n.id = m.id) : i = j := by
  have hi' : (g.nodes.map GraphNode.id)[i]? = some m.id := by
    rw [List.getElem?_map, hi, ← hid]
    rfl
  have hj' : (g.nodes.map GraphNode.id)[j]? = some m.id := by
    rw [List.getElem?_map, hj]
    rfl
  have hlt : i < (g.nodes.map GraphNode.id).length := (List.getElem?_eq_some_iff.1 hi').1
  exact (List.getElem?_inj hlt g.nodup_ids).1 (hi'.trans hj'.symm)

/-- Members of one id are the same. -/
theorem node_unique (hn : n ∈ g.nodes) (hm : m ∈ g.nodes) (hid : n.id = m.id) : n = m := by
  rcases List.getElem?_of_mem hn with ⟨i, hi⟩
  rcases List.getElem?_of_mem hm with ⟨j, hj⟩
  have hij := position_unique hi hj hid
  rw [hij, hj] at hi
  exact (Option.some.inj hi).symm

/-- One member imports another when the list of its imports says so. -/
theorem imports_iff (hi : g.nodes[i]? = some n) (hj : g.nodes[j]? = some m) :
    g.Imports n.id m.id ↔ m.id ∈ n.imports := by
  constructor
  · rintro ⟨_, n', hn', hid, himp⟩
    rw [← node_unique hn' (List.mem_of_getElem? hi) hid]
    exact himp
  · intro himp
    exact ⟨mem_ids_of_getElem? hj, n, List.mem_of_getElem? hi, rfl, himp⟩

theorem mem_ids_of_imports {x y : String} (h : g.Imports x y) : x ∈ g.ids ∧ y ∈ g.ids := by
  rcases h with ⟨hy, n, hn, hid, _⟩
  exact ⟨List.mem_map.2 ⟨n, hn, hid⟩, hy⟩

end Graph

end PackageAlgebra
