import PackageAlgebra.Graph.Basic
import PackageAlgebra.Proofs.Package.Survey

/-!
# Answers of Reduced Sets

A query that asks what leads where has one answer for a set and for its reduction.

Each of these queries surveys what the members of its set lead to, and each of them is
characterised here by the import relation of the universe, for every set that holds
editions of nodes. Neither the set nor its reduction occurs in such an answer apart
from the ids of the members, which are the same. So it does not matter which of the
two nodes of an id a walk has met.

The counts of a graph are sums, and stay the same in every position because the
members are sorted by ids and a reduced copy counts as much as its node.

## Theorems

* `mem_leadingTo_walkMembers_iff`: The members that lead to another set.
* `mem_keys_ofClosure_iff`: The ids of a closure.
* `mem_importedIds_walkMembers_iff`: What is imported within a closure.
* `map_counts_ofSet`: The counts of a graph by the import relation.
* `transitive_keeps_answers`: The answers of a set and of its reduction.
-/

namespace PackageAlgebra

open Relation NodeUniverse

variable {ρ : Type} {catalog : Catalog ρ} {u : NodeUniverse catalog} {a b : PackageSet ρ}
  {x y : String}

namespace PackageSet

/-! ### What members lead to -/

/-- The members from which edges lead to a target are those from which imports do. -/
theorem mem_leadingTo_walkMembers_iff (ha : a.HoldsEditions u) (hx : x ∈ a.keys)
    {targets : List String} :
    x ∈ leadingTo (edges catalog (a.walkMembers catalog)) targets ↔
      ∃ t ∈ targets, ReflTransGen u.Imports x t := by
  have hmet : x ∈ (a.walkMembers catalog).map Node.id := ha.survey.mem_iff.2 ⟨x, hx, .refl⟩
  rw [mem_leadingTo_iff]
  simp only [reflTransGen_iff_eq_or_transGen, ha.survey.leads_iff, hmet, true_and]

/-- The ids of a closure are those to which its roots lead. -/
theorem mem_keys_ofClosure_iff {roots : List (Node ρ)} (hroots : ∀ p ∈ roots, u.IsEdition p) :
    y ∈ (ofClosure catalog roots).keys ↔
      ∃ x ∈ roots.map Node.id, ReflTransGen u.Imports x y := by
  have hsurvey := survey_closure hroots fun x => Iff.rfl
  have hkeys : (ofClosure catalog roots).keys = (Node.closure catalog roots).map Node.id := by
    unfold ofClosure ofRoots OrderedMap.keys
    rw [OrderedMap.entries_ofList_map hsurvey.nodup, List.map_map]
    rfl
  rw [hkeys]
  exact hsurvey.mem_iff

/-- What is imported within a closure. -/
theorem mem_importedIds_walkMembers_iff (ha : a.HoldsEditions u) :
    y ∈ (a.walkMembers catalog).flatMap (·.importedIds catalog) ↔
      ∃ x ∈ a.keys, ∃ z, ReflTransGen u.Imports x z ∧ u.Imports z y := by
  rw [List.mem_flatMap]
  constructor
  · rintro ⟨p, hp, hy⟩
    rcases ha.survey.mem_iff.1 (List.mem_map_of_mem hp) with ⟨x, hx, hpath⟩
    rcases Node.mem_importedIds_iff.1 hy with ⟨n, hn, rfl⟩
    exact ⟨x, hx, p.id, hpath, ((ha.survey.edition p hp).stands.imports hn).2⟩
  · rintro ⟨x, hx, z, hpath, himports⟩
    have hmet := ha.survey.mem_iff.2 ⟨x, hx, hpath⟩
    -- The import itself may be missing, but then another path ends with an edge to its end.
    rcases TransGen.tail'_iff.1 (ha.survey.leads_iff.2 ⟨hmet, .single himports⟩)
      with ⟨_, _, hedge⟩
    rcases mem_edges_iff.1 hedge with ⟨p, hp, _, hy⟩
    exact ⟨p, hp, hy⟩

/-! ### Counts of graphs -/

/-- A member counts what it leads to, itself apart. -/
theorem mem_allImports_iff (ha : a.HoldsEditions u) (hx : x ∈ a.keys) :
    y ∈ ((allImports catalog a).get? x).getD [] ↔ y ≠ x ∧ TransGen u.Imports x y := by
  rcases List.mem_map.1 (ha.survey.mem_iff.2 ⟨x, hx, .refl⟩) with ⟨p, hp, rfl⟩
  have hget : (allImports catalog a).get? p.id =
      some ((p.dependencies catalog []).filter (· ≠ p.id)) := by
    unfold allImports
    rw [OrderedMap.get?_eq_some_iff, OrderedMap.entries_ofList_map ha.survey.nodup]
    exact List.mem_map.2 ⟨p, hp, rfl⟩
  have hedition := ha.survey.edition p hp
  rw [hget, Option.getD_some, List.mem_filter, decide_eq_true_eq, hedition.leads_iff,
    mem_dependencies_iff fun n hn => (hedition.stands.imports hn).1, and_comm]
  simp only [List.not_mem_nil, not_false_eq_true, true_and, and_true]

end PackageSet

open PackageSet

open Classical in
/-- The counts of a graph are those of the members that the import relation leads to
    or from. -/
theorem map_counts_ofSet (ha : a.HoldsEditions u) :
    (Graph.ofSet catalog a).nodes.map (fun n => (n.id, n.up, n.down)) =
      a.sortedNodes.map fun p => (p.id,
        totalStat ((a.sortedNodes.filter fun q =>
          p.id ≠ q.id ∧ TransGen u.Imports q.id p.id).map Node.stat),
        totalStat ((a.sortedNodes.filter fun q =>
          q.id ≠ p.id ∧ TransGen u.Imports p.id q.id).map Node.stat)) := by
  have hmember : ∀ p ∈ a.sortedNodes, p.id ∈ a.keys := by
    intro p hp
    rcases List.mem_map.1 hp with ⟨e, he, rfl⟩
    have hentry := List.mem_mergeSort.1 he
    rw [(ha e hentry).2]
    exact List.mem_map_of_mem hentry
  have hcounts : ∀ p ∈ a.sortedNodes, ∀ q : Node ρ,
      (((allImports catalog a).get? p.id).getD []).contains q.id =
        decide (q.id ≠ p.id ∧ TransGen u.Imports p.id q.id) := by
    intro p hp q
    rw [Bool.eq_iff_iff, List.contains_iff_mem, mem_allImports_iff ha (hmember p hp),
      decide_eq_true_iff]
  unfold Graph.ofSet
  simp only [ha.ofRoots_values, List.map_map]
  refine List.map_congr_left fun p hp => ?_
  rw [Function.comp_apply]
  rw [List.filter_congr fun q hq => hcounts q hq p, List.filter_congr fun q _ => hcounts p hp q]

theorem sortedNodes_transitive (ha : a.DrawnFrom u) :
    (a.transitive catalog).sortedNodes = a.sortedNodes.map (PackageSet.reduced catalog) := by
  unfold sortedNodes
  rw [entries_transitive ha, ← List.map_mergeSort (r := fun e f => decide (e.1 ≤ f.1))
    fun _ _ _ _ => rfl, List.map_map, List.map_map]
  rfl

/-- In an acyclic universe, a set and its reduction give the same answers: which of their
    members lead to another set, what they lead to, which of them nothing imports that they
    lead to, and the counts of what leads to each of them and of what each of them leads to. -/
theorem transitive_keeps_answers (hacyclic : u.Acyclic) (ha : a.DrawnFrom u) (b : PackageSet ρ) :
    (reach catalog (a.transitive catalog) b).keys = (reach catalog a b).keys ∧
      (∀ x, x ∈ (ofClosure catalog (a.transitive catalog).values).keys ↔
        x ∈ (ofClosure catalog a.values).keys) ∧
      (sources catalog (a.transitive catalog)).keys = (sources catalog a).keys ∧
      (Graph.ofSet catalog (a.transitive catalog)).nodes.map (fun n => (n.id, n.up, n.down)) =
        (Graph.ofSet catalog a).nodes.map fun n => (n.id, n.up, n.down) := by
  have hkeys := keys_transitive ha
  have hwhole := ha.holdsEditions
  have hreduced := ha.holdsEditions_transitive hacyclic
  refine ⟨?_, fun x => ?_, ?_, ?_⟩
  · unfold reach
    rw [OrderedMap.keys_filter, OrderedMap.keys_filter, hkeys]
    refine List.filter_congr fun x hx => Bool.eq_iff_iff.2 ?_
    rw [List.contains_iff_mem, List.contains_iff_mem, mem_leadingTo_walkMembers_iff hwhole hx,
      mem_leadingTo_walkMembers_iff hreduced (hkeys ▸ hx)]
  · rw [mem_keys_ofClosure_iff fun p hp => hreduced.edition hp,
      mem_keys_ofClosure_iff fun p hp => hwhole.edition hp, hreduced.map_id_values,
      hwhole.map_id_values, hkeys]
  · unfold sources
    rw [OrderedMap.keys_filter, OrderedMap.keys_filter, hkeys]
    refine List.filter_congr fun x hx => congrArg not (Bool.eq_iff_iff.2 ?_)
    rw [List.contains_iff_mem, List.contains_iff_mem, mem_importedIds_walkMembers_iff hwhole,
      mem_importedIds_walkMembers_iff hreduced, hkeys]
  · rw [map_counts_ofSet hwhole, map_counts_ofSet hreduced, sortedNodes_transitive ha,
      List.map_map]
    refine List.map_congr_left fun p _ => ?_
    simp only [Function.comp_apply, List.filter_map, List.map_map]
    rfl

/-- In the ladder, `A` leads to `D` although its reduced copy only imports `B`. -/
theorem transitive_keeps_answers_ladder :
    (ofListing ladder).Acyclic ∧ (listedSet ladder ["A", "C"]).DrawnFrom (ofListing ladder) ∧
      "A" ∈ (reach (Catalog.ofMap (listedNodes ladder))
        ((listedSet ladder ["A", "C"]).transitive (Catalog.ofMap (listedNodes ladder)))
        (listedSet ladder ["D"])).keys := by
  have hdrawn := drawnFrom_listedSet ladder ["A", "C"]
  have hmember : "A" ∈ (listedSet ladder ["A", "C"]).keys := by decide
  have hAD : (ofListing ladder).Imports "A" "D" := by decide
  have hkeys := (transitive_keeps_answers acyclic_ladder hdrawn (listedSet ladder ["D"])).1
  refine ⟨acyclic_ladder, hdrawn, ?_⟩
  rw [hkeys]
  unfold reach
  rw [OrderedMap.keys_filter, List.mem_filter, List.contains_iff_mem,
    mem_leadingTo_walkMembers_iff hdrawn.holdsEditions hmember]
  exact ⟨hmember, "D", by decide, .single hAD⟩

end PackageAlgebra
