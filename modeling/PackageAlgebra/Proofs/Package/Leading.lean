import Mathlib.Algebra.GroupWithZero.Nat
import PackageAlgebra.Proofs.Package.Closure

/-!
# What Leads to a Set

The members of a set from which imports lead to another set.

They are found by two walks. The first goes forward from the members and writes down every edge
that it comes across; the second goes backward along these edges from the targets. A path from a
member to a target may run through packages that are not members, and it may run in circles. But
the first walk has met everything on it, and so all of its edges are written down. That the
targets need not lie where the first walk has been is no matter: a target that no edge leads to
is found by itself alone.

Neither walk knows how much there is to meet. The first one looks at each member and at each edge
behind something that it has met, the second one at each target and at each of the edges that it
comes across, none of them twice, so both come to an end on any graph.

## Theorems

* `PackageSet.walked_walkMembers`, `PackageSet.walked_leadingTo`: The two walks come to an end.
* `PackageSet.DrawnFrom.mem_reach_iff`: The members that lead to a set.
* `reach_selects_leading`: What leads to a set, and to two of them.
-/

namespace PackageAlgebra

open Relation NodeUniverse PackageSet

variable {ρ : Type} {catalog : Catalog ρ} {u : NodeUniverse catalog} {a b : PackageSet ρ}

namespace PackageSet

/-! ### The two walks -/

/-- The edges between some nodes are as many as what lies behind them. -/
theorem length_edges (nodes : List (Node ρ)) :
    (edges catalog nodes).length =
      (nodes.map fun p => (Node.successors catalog p).length).sum := by
  unfold edges
  rw [List.length_flatMap]
  refine congrArg List.sum (List.map_congr_left fun p _ => ?_)
  unfold Node.importedIds Node.successors
  rw [List.length_map, List.length_map, List.length_reverse]

/-- The walk from the members comes to an end. It looks at each member and at each edge that it
    writes down. -/
theorem walked_walkMembers (catalog : Catalog ρ) (a : PackageSet ρ) :
    Walked Node.id (Node.successors catalog) [] a.values.reverse (a.walkMembers catalog)
      (a.size + (edges catalog (a.walkMembers catalog)).length) := by
  have hsize : a.values.reverse.length = a.size := by
    unfold OrderedMap.values OrderedMap.size
    rw [List.length_reverse, List.length_map]
  rw [length_edges, ← hsize]
  exact walked_walk fun p hp => iff_of_true (mem_knownIds _ hp) List.not_mem_nil

/-- Edges that end in different ids are different. -/
theorem sum_length_filter_le (edges : List (String × String)) {ids : List String}
    (hids : ids.Nodup) :
    (ids.map fun id => (edges.filter (·.2 = id)).length).sum ≤ edges.length := by
  induction ids generalizing edges with
  | nil => exact Nat.zero_le _
  | cons id rest ih =>
      rw [List.nodup_cons] at hids
      -- The edges that end in the other ids are among those that do not end in this one.
      have hothers : ∀ k ∈ rest, edges.filter (·.2 = k) =
          (edges.filter (·.2 ≠ id)).filter (·.2 = k) := by
        intro k hk
        rw [List.filter_filter]
        refine List.filter_congr fun e _ => ?_
        by_cases hend : e.2 = k
        · have hne : ¬ k = id := fun heq => hids.1 (heq ▸ hk)
          simp [hend, hne]
        · simp [hend]
      have hrest := ih (edges.filter (·.2 ≠ id)) hids.2
      rw [← List.map_congr_left fun k hk => congrArg List.length (hothers k hk)] at hrest
      have hsplit : edges.length =
          (edges.filter (·.2 = id)).length + (edges.filter (·.2 ≠ id)).length := by
        rw [List.length_eq_length_filter_add fun e : String × String => decide (e.2 = id)]
        simp only [ne_eq, decide_not]
      rw [List.map_cons, List.sum_cons, hsplit]
      exact Nat.add_le_add_left hrest _

/-- The walk backward from targets comes to an end. It looks at no edge twice. -/
theorem walked_leadingTo (edges : List (String × String)) (targets : List String) :
    ∃ rounds ≤ targets.length + edges.length,
      Walked (fun id => id) (fun id => (edges.filter (·.2 = id)).map Prod.fst) [] targets
        (leadingTo edges targets) rounds := by
  have hknown : ∀ id, (id ∈ targets ∨ ∃ k, id ∈ (edges.filter (·.2 = k)).map Prod.fst) →
      id ∈ targets ++ edges.map Prod.fst := by
    rintro id (hid | ⟨k, hid⟩)
    · exact List.mem_append_left _ hid
    · rcases List.mem_map.1 hid with ⟨e, he, rfl⟩
      exact List.mem_append_right _ (List.mem_map_of_mem (List.mem_filter.1 he).1)
  refine ⟨_, ?_, walked_walk fun id hid => iff_of_true (hknown id hid) List.not_mem_nil⟩
  have hnodup := (explored_walk (fun id => id)
    (fun id => (edges.filter (·.2 = id)).map Prod.fst) (targets ++ edges.map Prod.fst)
    targets).nodup
  rw [List.map_id'] at hnodup
  simp only [List.length_map]
  exact Nat.add_le_add_left (sum_length_filter_le edges hnodup) _

/-! ### The members that are found -/

/-- The members that lead to a set are found, with their own nodes. -/
theorem DrawnFrom.mem_reach_iff (ha : a.DrawnFrom u) {e : String × Node ρ} :
    e ∈ (a.reach catalog b).entries ↔
      e ∈ a.entries ∧ ∃ t ∈ b.keys, ReflTransGen u.Imports e.1 t := by
  unfold reach OrderedMap.filter
  rw [List.mem_filter]
  refine and_congr_right fun he => ?_
  rw [List.contains_iff_mem,
    mem_leadingTo_walkMembers_iff ha.holdsEditions (List.mem_map_of_mem he)]

/-- The members that are left are in the order of the set. -/
theorem reach_sublist (catalog : Catalog ρ) (a b : PackageSet ρ) :
    (a.reach catalog b).entries.Sublist a.entries := List.filter_sublist

theorem DrawnFrom.mem_keys_reach_iff (ha : a.DrawnFrom u) {x : String} :
    x ∈ (a.reach catalog b).keys ↔ x ∈ a.keys ∧ ∃ t ∈ b.keys, ReflTransGen u.Imports x t := by
  constructor
  · intro hx
    rcases List.mem_map.1 hx with ⟨e, he, rfl⟩
    exact (ha.mem_reach_iff.1 he).imp_left List.mem_map_of_mem
  · rintro ⟨hx, hleads⟩
    rcases List.mem_map.1 hx with ⟨e, he, rfl⟩
    exact List.mem_map_of_mem (ha.mem_reach_iff.2 ⟨he, hleads⟩)

theorem DrawnFrom.reach (ha : a.DrawnFrom u) (b : PackageSet ρ) :
    (a.reach catalog b).DrawnFrom u := ha.of_subset (reach_sublist catalog a b).subset

/-- All members of what is found are found again. -/
theorem DrawnFrom.reach_reach (ha : a.DrawnFrom u) (b : PackageSet ρ) :
    (a.reach catalog b).reach catalog b = a.reach catalog b := by
  refine OrderedMap.eq_of_entries_eq ((reach_sublist catalog _ b).eq_of_length_le ?_)
  refine (List.Nodup.subperm (nodup_entries _) fun e he => ?_).length_le
  exact (ha.reach b).mem_reach_iff.2 ⟨he, (ha.mem_reach_iff.1 he).2⟩

/-- What leads to one of two sets is what leads to either. -/
theorem DrawnFrom.reach_union_perm (ha : a.DrawnFrom u) (b c : PackageSet ρ) :
    (a.reach catalog (b.union c)).entries.Perm
      ((a.reach catalog b).union (a.reach catalog c)).entries := by
  refine ((ha.reach (b.union c)).perm_iff ((ha.reach b).union (ha.reach c))).2 fun x => ?_
  simp only [mem_keys_union, ha.mem_keys_reach_iff, or_and_right, exists_or, ← and_or_left]

end PackageSet

/-- Of a set, the members from which imports lead to another set are found, by whatever packages
    they lead there, and by two walks that come to an end on every graph. What has been found is
    found again, and what leads to two sets together is what leads to one or the other. -/
theorem reach_selects_leading (ha : a.DrawnFrom u) (b : PackageSet ρ) :
    (∃ met, Walked Node.id (Node.successors catalog) [] a.values.reverse met
        (a.size + (edges catalog met).length) ∧
      ∃ leading, ∃ rounds ≤ b.size + (edges catalog met).length,
        Walked (fun id => id) (fun id => ((edges catalog met).filter (·.2 = id)).map Prod.fst) []
          b.keys leading rounds ∧
        reach catalog a b = a.filter fun id _ => leading.contains id) ∧
      (reach catalog a b).entries.Sublist a.entries ∧
      (∀ e, e ∈ (reach catalog a b).entries ↔
        e ∈ a.entries ∧ ∃ t ∈ b.keys, ReflTransGen u.Imports e.1 t) ∧
      reach catalog (reach catalog a b) b = reach catalog a b ∧
      ∀ c : PackageSet ρ, (reach catalog a (b.union c)).entries.Perm
        ((reach catalog a b).union (reach catalog a c)).entries := by
  refine ⟨⟨a.walkMembers catalog, walked_walkMembers catalog a, ?_⟩, reach_sublist catalog a b,
    fun _ => ha.mem_reach_iff, ha.reach_reach b, ha.reach_union_perm b⟩
  have hsize : b.keys.length = b.size := List.length_map _
  rcases walked_leadingTo (edges catalog (a.walkMembers catalog)) b.keys with ⟨rounds, hle, hwalk⟩
  exact ⟨_, rounds, hsize ▸ hle, hwalk, rfl⟩

/-- From the node before the loop of the knot a path leads to the loop, through a package that is
    not in the set. -/
theorem reach_selects_leading_knot :
    (listedSet knot ["A", "D"]).DrawnFrom (ofListing knot) ∧
      "A" ∈ (reach (Catalog.ofMap (listedNodes knot)) (listedSet knot ["A", "D"])
        (listedSet knot ["C"])).keys ∧
      "A" ∉ (reach (Catalog.ofMap (listedNodes knot)) (listedSet knot ["A", "D"])
        (listedSet knot ["D"])).keys := by
  have hdrawn := drawnFrom_listedSet knot ["A", "D"]
  have hAB : (ofListing knot).Imports "A" "B" := by decide
  have hBC : (ofListing knot).Imports "B" "C" := by decide
  have hA : "A" ∈ (listedSet knot ["A", "D"]).keys := by decide
  have htarget : ∀ t ∈ (listedSet knot ["D"]).keys, t = "D" := by decide
  rcases reach_selects_leading hdrawn (listedSet knot ["C"]) with ⟨-, -, htoC, -⟩
  rcases reach_selects_leading hdrawn (listedSet knot ["D"]) with ⟨-, -, htoD, -⟩
  refine ⟨hdrawn, ?_, fun hfound => ?_⟩
  · rcases List.mem_map.1 hA with ⟨e, he, hid⟩
    refine List.mem_map.2 ⟨e, (htoC e).2 ⟨he, "C", by decide, ?_⟩, hid⟩
    exact hid ▸ ReflTransGen.head hAB (.single hBC)
  · -- Nothing imports the node that imports all the others.
    have himported : ∀ p ∈ (listedNodes knot).values,
        ∀ y ∈ p.importedIds (Catalog.ofMap (listedNodes knot)), y ≠ "D" := by decide
    rcases List.mem_map.1 hfound with ⟨e, he, hid⟩
    rcases ((htoD e).1 he).2 with ⟨t, ht, hpath⟩
    rw [hid, htarget t ht] at hpath
    rcases hpath.cases_tail with heq | ⟨_, -, p, hp, -, hy⟩
    · exact absurd heq (by decide)
    · exact himported p hp "D" hy rfl

end PackageAlgebra
