import PackageAlgebra.Proofs.Counts
import PackageAlgebra.Proofs.Cut.Cascade
import PackageAlgebra.Proofs.Graph.Edges
import Mathlib.Order.Bounds.Basic

/-!
# The Table of a Graph

What the cascade computes, said of the graph and not of its table.

The table of a graph has a position for each member and an edge for each import
between members. The deletion of a position was shown to be a least fixed point
over positions; here the same is said of ids, which is what the rows of the
analysis show. The two readings agree because an id stands at one position only,
so a set of positions and a set of ids determine each other.

A total over deleted positions follows the order in which the cascade met them.
A total over members follows the order of the graph. Both lists hold each deleted
node once, so one is a rearrangement of the other.

## Main definitions

* `Graph.Falls`: A member loses all its importers with the target and a set.
* `Graph.IsCut`: The set of members that go away with a target.
* `CutTable.idsOf`: The ids of some positions.

## Theorems

* `mem_importersAt_ofGraph`: The edges of the table are the imports of the graph.
* `linked_ofGraph`: The table of a graph is linked.
* `falls_ofGraph_iff`: Positions fall as the members at them do.
* `isCut_erase`: A deletion gives the cut of its target.
* `statOf_ofGraph`: The total of some positions, as a total over members.
-/

namespace PackageAlgebra

namespace Graph

/-- A member other than the target has importers, and they all are the target or
    belong to a set. -/
def Falls (g : Graph) (target : String) (s : Set String) (x : String) : Prop :=
  x ∈ g.ids ∧ x ≠ target ∧ (∃ y, g.Imports y x) ∧ ∀ y, g.Imports y x → y = target ∨ y ∈ s

/-- The least set that consists of the members which fall with the target and the
    set itself. -/
def IsCut (g : Graph) (target : String) (gone : Set String) : Prop :=
  IsLeast {s | ∀ x, x ∈ s ↔ g.Falls target s x} gone

end Graph

namespace CutTable

/-- The ids of the nodes at some positions. -/
def idsOf (t : CutTable) (positions : List Nat) : List String :=
  positions.filterMap fun i => t[i]?.map CutNode.id

/-- Tables that differ in their counts only have the same ids. -/
theorem idsOf_congr {t u : CutTable} (h : t.resetAll = u.resetAll) (positions : List Nat) :
    t.idsOf positions = u.idsOf positions :=
  List.filterMap_congr fun i _ => map_getElem?_congr (fun _ => rfl) h i

variable {g : Graph}

/-! ### Nodes and edges -/

theorem id_ofGraph (g : Graph) (i : Nat) :
    (ofGraph g)[i]?.map CutNode.id = g.nodes[i]?.map GraphNode.id := by
  unfold ofGraph
  rw [map_getElem?_importAll CutNode.id fun _ _ _ _ => rfl, List.getElem?_map, Option.map_map]
  rfl

theorem stat_ofGraph (g : Graph) (i : Nat) :
    (ofGraph g)[i]?.map CutNode.stat = g.nodes[i]?.map GraphNode.stat := by
  unfold ofGraph
  rw [map_getElem?_importAll CutNode.stat fun _ _ _ _ => rfl, List.getElem?_map, Option.map_map]
  rfl

theorem length_ofGraph (g : Graph) : (ofGraph g).length = g.nodes.length := by
  unfold ofGraph
  rw [length_importAll, List.length_map]

/-- There is an edge where the imports of a member hold the id of another. -/
theorem mem_edgesOf_iff (g : Graph) (i j : Nat) :
    (i, j) ∈ edgesOf g ↔
      ∃ n m, g.nodes[i]? = some n ∧ g.nodes[j]? = some m ∧ m.id ∈ n.imports := by
  unfold edgesOf
  simp only [List.mem_flatMap, List.mem_filterMap, Option.map_eq_some_iff, Prod.mk.injEq,
    List.mem_zipIdx_iff_getElem?]
  constructor
  · -- The edge goes to the first position with the id.
    rintro ⟨⟨n, k⟩, hn, id, hid, b, hb, rfl, rfl⟩
    rcases List.idxOf?_eq_some_iff.1 hb with ⟨hlt, hget, _⟩
    rw [List.length_map] at hlt
    rw [List.getElem_map] at hget
    exact ⟨n, g.nodes[b], hn, List.getElem?_eq_getElem hlt, hget ▸ hid⟩
  · rintro ⟨n, m, hn, hm, himp⟩
    refine ⟨(n, i), hn, m.id, himp, j, ?_, rfl, rfl⟩
    rcases List.getElem?_eq_some_iff.1 hm with ⟨hlt, rfl⟩
    refine List.idxOf?_eq_some_iff.2 ⟨by rw [List.length_map]; exact hlt,
      by rw [List.getElem_map], fun k hk hid => ?_⟩
    -- An earlier position with the id would be a second one of the member.
    have hklt : k < g.nodes.length := by omega
    rw [List.getElem_map] at hid
    have hkj := Graph.position_unique (List.getElem?_eq_getElem hklt) hm hid
    omega

theorem edgesOf_in_range (g : Graph) : ∀ e ∈ edgesOf g,
    e.1 < (g.nodes.map fun n => CutNode.make n.id n.stat).length ∧
      e.2 < (g.nodes.map fun n => CutNode.make n.id n.stat).length := by
  rintro ⟨i, j⟩ he
  rcases (mem_edgesOf_iff g i j).1 he with ⟨n, m, hn, hm, _⟩
  rw [List.length_map]
  exact ⟨(List.getElem?_eq_some_iff.1 hn).1, (List.getElem?_eq_some_iff.1 hm).1⟩

/-- The table of a graph is linked. -/
theorem linked_ofGraph (g : Graph) : (ofGraph g).Linked :=
  linked_importAll _ _ (edgesOf_in_range g) (linked_map_make GraphNode.id GraphNode.stat g.nodes)

/-- The edges of the table are the imports of the graph. -/
theorem mem_importersAt_ofGraph {j : Nat} {m : GraphNode} (hj : g.nodes[j]? = some m) (i : Nat) :
    i ∈ (ofGraph g).importersAt j ↔ ∃ n, g.nodes[i]? = some n ∧ g.Imports n.id m.id := by
  rw [← (linked_ofGraph g).mem_iff i j]
  unfold ofGraph
  rw [mem_importsAt_importAll _ _ fun e he => (edgesOf_in_range g e he).1, importsAt_map_make,
    mem_edgesOf_iff]
  simp only [List.not_mem_nil, false_or]
  constructor
  · rintro ⟨n, m', hn, hm', himp⟩
    rw [hj, Option.some.injEq] at hm'
    subst hm'
    exact ⟨n, hn, (Graph.imports_iff hn hj).2 himp⟩
  · rintro ⟨n, hn, himp⟩
    exact ⟨n, m, hn, hj, (Graph.imports_iff hn hj).1 himp⟩

/-! ### Ids and positions -/

theorem mem_idsOf_ofGraph {k : Nat} {p : GraphNode} (hk : g.nodes[k]? = some p)
    (positions : List Nat) : p.id ∈ (ofGraph g).idsOf positions ↔ k ∈ positions := by
  unfold idsOf
  simp only [id_ofGraph, List.mem_filterMap, Option.map_eq_some_iff]
  constructor
  · rintro ⟨k', hk', p', hp', hid⟩
    rw [Graph.position_unique hk hp' hid.symm]
    exact hk'
  · intro hmem
    exact ⟨k, hmem, p, hk, rfl⟩

theorem exists_position_of_mem_idsOf {x : String} {positions : List Nat}
    (h : x ∈ (ofGraph g).idsOf positions) :
    ∃ k p, k ∈ positions ∧ g.nodes[k]? = some p ∧ p.id = x := by
  unfold idsOf at h
  simp only [id_ofGraph, List.mem_filterMap, Option.map_eq_some_iff] at h
  rcases h with ⟨k, hk, p, hp, hid⟩
  exact ⟨k, p, hk, hp, hid⟩

/-- Positions that are different have different ids. -/
theorem nodup_idsOf_ofGraph {positions : List Nat} (h : positions.Nodup) :
    ((ofGraph g).idsOf positions).Nodup := by
  unfold idsOf
  refine h.filterMap fun i j x hi hj => ?_
  rw [Option.mem_def, id_ofGraph, Option.map_eq_some_iff] at hi hj
  rcases hi with ⟨n, hn, hnx⟩
  rcases hj with ⟨m, hm, hmx⟩
  exact Graph.position_unique hn hm (hnx.trans hmx.symm)

/-- Positions fall as the members at them do. -/
theorem falls_ofGraph_iff {i j : Nat} {n m : GraphNode} (hi : g.nodes[i]? = some n)
    (hj : g.nodes[j]? = some m) (s : Set String) :
    (ofGraph g).Falls i (fun k => ∃ p, g.nodes[k]? = some p ∧ p.id ∈ s) j ↔
      g.Falls n.id s m.id := by
  -- Two positions differ exactly when their ids do.
  have hne : j ≠ i ↔ m.id ≠ n.id := by
    refine not_congr ⟨fun h => ?_, fun h => Graph.position_unique hj hi h⟩
    rw [h, hi, Option.some.injEq] at hj
    rw [hj]
  have hnil : (ofGraph g).importersAt j ≠ [] ↔ ∃ k, k ∈ (ofGraph g).importersAt j :=
    ⟨List.exists_mem_of_ne_nil _, fun ⟨_, hk⟩ => List.ne_nil_of_mem hk⟩
  unfold Falls Graph.Falls
  rw [hne, hnil]
  simp only [mem_importersAt_ofGraph hj]
  refine ⟨fun ⟨hjn, ⟨k, q, _, hq⟩, hall⟩ => ⟨Graph.mem_ids_of_getElem? hj, hjn, ⟨q.id, hq⟩, ?_⟩,
    fun ⟨_, hjn, ⟨y, hy⟩, hall⟩ => ⟨hjn, ?_, ?_⟩⟩
  · -- Importers are members, so each of them has a position to be asked at.
    intro y hy
    rcases Graph.exists_position_of_mem_ids (Graph.mem_ids_of_imports hy).1 with ⟨k, q, hk, rfl⟩
    rcases hall k ⟨q, hk, hy⟩ with rfl | ⟨p, hp, hps⟩
    · rw [hi, Option.some.injEq] at hk
      exact Or.inl (by rw [hk])
    · rw [hk, Option.some.injEq] at hp
      exact Or.inr (hp ▸ hps)
  · rcases Graph.exists_position_of_mem_ids (Graph.mem_ids_of_imports hy).1 with ⟨k, q, hk, rfl⟩
    exact ⟨k, q, hk, hy⟩
  · rintro k ⟨q, hk, hq⟩
    rcases hall q.id hq with hqn | hqs
    · exact Or.inl (Graph.position_unique hk hi hqn)
    · exact Or.inr ⟨q, hk, hqs⟩

/-! ### The cut of a target -/

/-- A deletion from full counts gives the cut of its target. -/
theorem isCut_erase {i : Nat} {n : GraphNode} (hi : g.nodes[i]? = some n) :
    g.IsCut n.id {x | x ∈ (ofGraph g).idsOf ((ofGraph g).resetAll.erase i).1} := by
  have hlinked := linked_ofGraph g
  -- Only a member has importers, so what falls is a member.
  have hrange : ∀ {s : Nat → Prop} {j : Nat}, (ofGraph g).Falls i s j →
      ∃ m, g.nodes[j]? = some m := by
    intro s j hfalls
    rcases List.exists_mem_of_ne_nil _ hfalls.2.1 with ⟨k, hk⟩
    have hlt := lt_length_of_mem_importersAt hk
    rw [length_ofGraph] at hlt
    exact ⟨g.nodes[j], List.getElem?_eq_getElem hlt⟩
  constructor
  · intro x
    rw [Set.mem_ofPred_eq]
    constructor
    · intro hx
      rcases exists_position_of_mem_idsOf hx with ⟨j, m, hj, hm, rfl⟩
      refine (falls_ofGraph_iff hi hm _).1 ?_
      have hfalls := (mem_erase_iff hlinked i j).1 hj
      refine ⟨hfalls.1, hfalls.2.1, fun k hk => ?_⟩
      rcases hfalls.2.2 k hk with hki | hkgone
      · exact Or.inl hki
      · rcases (mem_importersAt_ofGraph hm k).1 hk with ⟨q, hq, _⟩
        exact Or.inr ⟨q, hq, (mem_idsOf_ofGraph hq _).2 hkgone⟩
    · intro hfalls
      rcases Graph.exists_position_of_mem_ids hfalls.1 with ⟨j, m, hm, rfl⟩
      refine (mem_idsOf_ofGraph hm _).2 ((mem_erase_iff hlinked i j).2 ?_)
      have hpos := (falls_ofGraph_iff hi hm _).2 hfalls
      refine ⟨hpos.1, hpos.2.1, fun k hk => ?_⟩
      rcases hpos.2.2 k hk with hki | ⟨q, hq, hqgone⟩
      · exact Or.inl hki
      · exact Or.inr ((mem_idsOf_ofGraph hq _).1 hqgone)
  · -- Another solution over ids is a closed set of positions.
    intro s hs x hx
    rcases exists_position_of_mem_idsOf hx with ⟨j, m, hj, hm, rfl⟩
    have hleast := mem_of_mem_erase hlinked i
      (fun k => ∃ p, g.nodes[k]? = some p ∧ p.id ∈ s) ?_ j hj
    · rcases hleast with ⟨p, hp, hps⟩
      rw [hm, Option.some.injEq] at hp
      exact hp ▸ hps
    · intro k hk
      rcases hrange hk with ⟨q, hq⟩
      exact ⟨q, hq, (hs q.id).2 ((falls_ofGraph_iff hi hq s).1 hk)⟩

/-- Positions that hold the members with a property, each once, give a
    rearrangement of these members. -/
theorem perm_nodes_of_positions {positions : List Nat} (h : positions.Nodup)
    (p : GraphNode → Bool)
    (hp : ∀ (k : Nat) (n : GraphNode), g.nodes[k]? = some n → (k ∈ positions ↔ p n)) :
    (positions.filterMap (g.nodes[·]?)).Perm (g.nodes.filter p) := by
  -- Both lists are free of repetitions, so it is enough that they have one set.
  have hnodes : g.nodes.Nodup := List.Nodup.of_map GraphNode.id g.nodup_ids
  have hpositions : (positions.filterMap (g.nodes[·]?)).Nodup :=
    h.filterMap fun i j n hi hj => Graph.position_unique hi hj rfl
  refine (List.perm_ext_iff_of_nodup hpositions (hnodes.filter _)).2 fun n => ?_
  simp only [List.mem_filterMap, List.mem_filter]
  constructor
  · rintro ⟨k, hk, hn⟩
    exact ⟨List.mem_of_getElem? hn, (hp k n hn).1 hk⟩
  · rintro ⟨hn, hpn⟩
    rcases List.getElem?_of_mem hn with ⟨k, hk⟩
    exact ⟨k, (hp k n hk).2 hpn, hk⟩

/-- The total of some positions, each taken once, is the total of the members
    whose ids they have. -/
theorem statOf_ofGraph {positions : List Nat} (h : positions.Nodup) :
    (ofGraph g).statOf positions =
      totalStat ((g.nodes.filter (·.id ∈ (ofGraph g).idsOf positions)).map GraphNode.stat) := by
  have hstat : (ofGraph g).statOf positions =
      totalStat ((positions.filterMap (g.nodes[·]?)).map GraphNode.stat) := by
    unfold statOf
    rw [List.map_filterMap]
    simp only [stat_ofGraph]
  rw [hstat]
  refine totalStat_perm (List.Perm.map _ (perm_nodes_of_positions h _ fun k n hn => ?_))
  rw [decide_eq_true_eq]
  exact (mem_idsOf_ofGraph hn positions).symm

/-- A member has as many importers in the table as in the graph. -/
theorem length_importersAt_ofGraph {i : Nat} {n : GraphNode} (hi : g.nodes[i]? = some n) :
    ((ofGraph g).importersAt i).length = (g.nodes.filter fun m => n.id ∈ m.imports).length := by
  have hperm := perm_nodes_of_positions ((linked_ofGraph g).nodup_importers i)
    (fun m => n.id ∈ m.imports) fun k m hm => by
      rw [mem_importersAt_ofGraph hi, decide_eq_true_eq, ← Graph.imports_iff hm hi]
      exact ⟨fun ⟨q, hq, himp⟩ => by
        rw [hm, Option.some.injEq] at hq
        exact hq ▸ himp, fun himp => ⟨m, hm, himp⟩⟩
  rw [← hperm.length_eq]
  refine (List.filterMap_length_eq_length.2 fun k hk => ?_).symm
  rcases (mem_importersAt_ofGraph hi k).1 hk with ⟨m, hm, _⟩
  exact Option.isSome_iff_exists.2 ⟨m, hm⟩

end CutTable

end PackageAlgebra
