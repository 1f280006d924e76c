import PackageAlgebra.Proofs.Cut.Dominance
import PackageAlgebra.Proofs.Cut.Rows
import Mathlib.Order.FixedPoints
import Mathlib.Order.CompletePartialOrder

/-!
# Cuts Side by Side

Two cuts of one graph lie inside each other or apart.

The cut of a target was described on its own, as the least set that the rule of falling members
makes. Here two of them are compared, which come from deletions that know nothing of each other.
What compares them is an induction along the rule. A least fixed point of a monotone rule lies
in every set that the rule does not leave, and so a property that passes from the importers of a
member to the member itself holds of all that falls.

If a member falls with two targets, so does each of its importers, unless it is one of the
targets. Going up from importer to importer, the first target that is met is held by the other
one. A target that is held by another one brings all along that falls with it, because whatever
loses its importers to the first loses them to the second.

No path is spoken of in this, and the graph may have cycles. That it has none is needed for one
thing only: on a cycle two targets may hold each other, and then their cuts are the same. Without
cycles a member that falls is led to by the target, so one of two targets comes first.

## Main definitions

* `Graph.falling`: The rule of falling members, as a monotone function.
* `Graph.freedBy`: What goes away with a member, as it is deleted.
* `Graph.heldBy`: A member with what goes away with it.

## Theorems

* `IsCut.subset_of_closed`: A cut lies in every set that the rule does not leave.
* `IsCut.held_of_shared`: Of two targets with something in common, one holds the other.
* `IsCut.insert_subset`: A target that is held brings its cut along.
* `IsCut.leads`: A target leads to what falls with it.
* `heldBy_nested_or_apart`: The cuts of a graph as a forest.
-/

namespace PackageAlgebra

open Relation CutTable

namespace Graph

/-- The rule of falling members, as a monotone function. -/
def falling (g : Graph) (target : String) : Set String →o Set String where
  toFun s := {x | g.Falls target s x}
  monotone' _ _ hle _ hx :=
    ⟨hx.1, hx.2.1, hx.2.2.1, fun y hy => (hx.2.2.2 y hy).imp_right fun hmem => hle hmem⟩

/-- The ids of what goes away with a member: of the nodes whose counts its cut adds up. -/
def freedBy (g : Graph) (target : String) : List String :=
  (ofGraph g).idsOf ((ofGraph g).resetAll.erase (g.ids.idxOf target)).1

/-- A member with what goes away with it. -/
def heldBy (g : Graph) (target : String) : List String := target :: g.freedBy target

variable {g : Graph} {target other x : String} {gone lost s : Set String}

/-! ### Induction along the rule -/

/-- A cut lies in every set that the rule does not leave. -/
theorem IsCut.subset_of_closed (h : g.IsCut target gone)
    (hs : ∀ x, g.Falls target s x → x ∈ s) : gone ⊆ s := by
  have hfixed : {s | ∀ x, x ∈ s ↔ g.Falls target s x} =
      Function.fixedPoints (g.falling target) := by
    ext s
    exact ⟨fun hx => Set.ext fun x => (hx x).symm, fun hx x => (Set.ext_iff.1 hx x).symm⟩
  unfold IsCut at h
  rw [hfixed] at h
  rw [h.unique (g.falling target).isLeast_lfp]
  exact (g.falling target).lfp_le hs

/-- A target leads to what falls with it. -/
theorem IsCut.leads (h : g.IsCut target gone) (hx : x ∈ gone) : TransGen g.Imports target x := by
  refine h.subset_of_closed (s := {x | TransGen g.Imports target x}) (fun x hfalls => ?_) hx
  rcases hfalls.2.2.1 with ⟨y, hy⟩
  rcases hfalls.2.2.2 y hy with rfl | hpath
  · exact .single hy
  · exact .tail hpath hy

/-! ### Two cuts -/

/-- Of two targets with something in common, one holds the other. -/
theorem IsCut.held_of_shared (h : g.IsCut target gone) (hother : g.IsCut other lost)
    (hx : x ∈ insert target gone) (hshared : x ∈ insert other lost) :
    target ∈ insert other lost ∨ other ∈ insert target gone := by
  rcases hx with rfl | hx
  · exact .inl hshared
  · have hclosed : gone ⊆ {x | x ∈ gone ∧ (x ∈ insert other lost →
        target ∈ insert other lost ∨ other ∈ insert target gone)} := by
      refine h.subset_of_closed fun x hfalls => ?_
      have hx : x ∈ gone := (h.1 x).2 ((g.falling target).monotone (fun _ hy => hy.1) hfalls)
      refine ⟨hx, fun hshared => ?_⟩
      rcases hshared with rfl | hshared
      · exact .inr (.inr hx)
      · -- An importer of a shared member is a target or shared as well.
        have hfallsOther := (hother.1 x).1 hshared
        rcases hfalls.2.2.1 with ⟨y, hy⟩
        have hyOther : y ∈ insert other lost := hfallsOther.2.2.2 y hy
        rcases hfalls.2.2.2 y hy with rfl | hmem
        · exact .inl hyOther
        · exact hmem.2 hyOther
    exact (hclosed hx).2 hshared

/-- A target that is held by another one brings along what falls with it. -/
theorem IsCut.insert_subset (h : g.IsCut target gone) (hother : g.IsCut other lost)
    (hheld : other ∈ insert target gone) : insert other lost ⊆ insert target gone := by
  refine Set.insert_subset hheld (hother.subset_of_closed fun x hfalls => ?_)
  by_cases hx : x = target
  · exact .inl hx
  · refine .inr ((h.1 x).2 ⟨hfalls.1, hx, hfalls.2.2.1, fun y hy => ?_⟩)
    rcases hfalls.2.2.2 y hy with rfl | hmem
    · exact hheld
    · exact hmem

/-- Without cycles, two targets do not hold each other. -/
theorem IsCut.not_mem_of_mem (hacyclic : g.Acyclic) (h : g.IsCut target gone)
    (hother : g.IsCut other lost) (hheld : other ∈ gone) : target ∉ lost :=
  fun hmem => hacyclic target ((h.leads hheld).trans (hother.leads hmem))

/-! ### Deletions -/

theorem idxOf_id {i : Nat} {n : GraphNode} (hi : g.nodes[i]? = some n) : g.ids.idxOf n.id = i := by
  have hid : g.ids[i]? = some n.id := by
    unfold ids
    rw [List.getElem?_map, hi]
    rfl
  rcases List.getElem?_eq_some_iff.1 hid with ⟨hlt, hget⟩
  rw [← hget]
  exact List.Nodup.idxOf_getElem g.nodup_ids i hlt

theorem isCut_freedBy (htarget : target ∈ g.ids) :
    g.IsCut target {x | x ∈ g.freedBy target} := by
  rcases exists_position_of_mem_ids htarget with ⟨i, n, hi, rfl⟩
  unfold freedBy
  rw [idxOf_id hi]
  exact isCut_erase hi

end Graph

variable {g : Graph}

/-- The cut in the row of a target adds up what goes away with it, each member once. -/
theorem cut_eq_of_mem_cutRows {targets : Option (List String)} {exclude : List String}
    {r : CutRow} (hr : r ∈ cutRows g targets exclude) :
    r.id ∈ g.ids ∧
      r.cut = totalStat ((g.nodes.filter (·.id ∈ g.freedBy r.id)).map GraphNode.stat) := by
  rcases (mem_cutRows_iff r).1 hr with ⟨i, n, hn, _, _, rfl⟩
  have hid := id_ofGraph g i
  rw [hn] at hid
  rcases Option.map_eq_some_iff.1 hid.symm with ⟨m, hm, hmid⟩
  change n.id ∈ g.ids ∧ (ofGraph g).statOf ((ofGraph g).resetAll.erase i).1 = totalStat
    ((g.nodes.filter (·.id ∈ g.freedBy n.id)).map GraphNode.stat)
  rw [← hmid, Graph.freedBy, Graph.idxOf_id hm]
  exact ⟨Graph.mem_ids_of_getElem? hm, statOf_ofGraph (nodup_erase (linked_ofGraph g) i)⟩

/-- The cuts of a graph as a forest. Two members, each with what goes away with it, lie inside
    each other or apart. If something goes away with two different members, one of the two goes
    away with the other, and in an acyclic graph only one of them does. What goes away is what
    the rows of an analysis add up. -/
theorem heldBy_nested_or_apart (g : Graph) :
    (∀ t ∈ g.ids, ∀ u ∈ g.ids,
      (g.heldBy t ⊆ g.heldBy u ∨ g.heldBy u ⊆ g.heldBy t ∨ (g.heldBy t).Disjoint (g.heldBy u)) ∧
        (t ≠ u → ∀ x ∈ g.freedBy t, x ∈ g.freedBy u → t ∈ g.freedBy u ∨ u ∈ g.freedBy t) ∧
        (g.Acyclic → u ∈ g.freedBy t → t ∉ g.freedBy u)) ∧
      ∀ targets exclude, ∀ r ∈ cutRows g targets exclude,
        r.id ∈ g.ids ∧
          r.cut = totalStat ((g.nodes.filter (·.id ∈ g.freedBy r.id)).map GraphNode.stat) := by
  refine ⟨fun t ht u hu => ?_, fun _ _ _ hr => cut_eq_of_mem_cutRows hr⟩
  have hcut := Graph.isCut_freedBy ht
  have hother := Graph.isCut_freedBy hu
  have hmem : ∀ {x y : String}, x ∈ g.heldBy y ↔ x ∈ insert y {z | z ∈ g.freedBy y} :=
    fun {x y} => List.mem_cons
  have hheld : ∀ {x : String}, x ∈ g.heldBy t → x ∈ g.heldBy u →
      t ∈ g.heldBy u ∨ u ∈ g.heldBy t := by
    intro x hx hshared
    rw [hmem] at hx hshared ⊢
    rw [hmem]
    exact hcut.held_of_shared hother hx hshared
  refine ⟨?_, fun hne x hx hshared => ?_, fun hacyclic hu => hcut.not_mem_of_mem hacyclic hother hu⟩
  · by_cases hapart : (g.heldBy t).Disjoint (g.heldBy u)
    · exact .inr (.inr hapart)
    · unfold List.Disjoint at hapart
      push Not at hapart
      rcases hapart with ⟨x, hx, hshared, _⟩
      rcases hheld hx hshared with htu | hut
      · exact .inl fun y hy => hmem.2 (hother.insert_subset hcut (hmem.1 htu) (hmem.1 hy))
      · exact .inr (.inl fun y hy => hmem.2 (hcut.insert_subset hother (hmem.1 hut) (hmem.1 hy)))
  · rcases hheld (List.mem_cons_of_mem t hx) (List.mem_cons_of_mem u hshared) with htu | hut
    · exact .inl (List.mem_of_ne_of_mem hne htu)
    · exact .inr (List.mem_of_ne_of_mem (Ne.symm hne) hut)

/-- What one of two members of the fork holds lies inside what the other one holds. -/
theorem heldBy_nested_or_apart_fork :
    ("A" ∈ forkGraph.ids ∧ "B" ∈ forkGraph.ids ∧ "A" ≠ "B" ∧ forkGraph.Acyclic ∧
        "E" ∈ forkGraph.freedBy "A" ∧ "E" ∈ forkGraph.freedBy "B") ∧
      ("A" ∈ forkGraph.freedBy "B" ∨ "B" ∈ forkGraph.freedBy "A") ∧
      "A" ∉ forkGraph.freedBy "B" ∧
      ∃ r ∈ cutRows forkGraph (some ["B"]) [], r.cut = totalStat
        ((forkGraph.nodes.filter (·.id ∈ forkGraph.freedBy r.id)).map GraphNode.stat) := by
  have hids : "A" ∈ forkGraph.ids ∧ "B" ∈ forkGraph.ids := by decide
  -- The two members that fall have one importer each.
  have hB : ∀ y, forkGraph.Imports y "B" ↔ y = "A" := by
    intro y
    simpa [forkEdges] using imports_forkGraph_iff y "B"
  have hE : ∀ y, forkGraph.Imports y "E" ↔ y = "B" := by
    intro y
    simpa [forkEdges] using imports_forkGraph_iff y "E"
  have hcut := Graph.isCut_freedBy hids.1
  have hBA : "B" ∈ forkGraph.freedBy "A" :=
    (hcut.1 "B").2 ⟨hids.2, by decide, ⟨"A", (hB "A").2 rfl⟩, fun y hy => .inl ((hB y).1 hy)⟩
  have hEA : "E" ∈ forkGraph.freedBy "A" := by
    refine (hcut.1 "E").2 ⟨by decide, by decide, ⟨"B", (hE "B").2 rfl⟩, fun y hy => .inr ?_⟩
    rw [(hE y).1 hy]
    exact hBA
  have hEB : "E" ∈ forkGraph.freedBy "B" :=
    ((Graph.isCut_freedBy hids.2).1 "E").2
      ⟨by decide, by decide, ⟨"B", (hE "B").2 rfl⟩, fun y hy => .inl ((hE y).1 hy)⟩
  have hrow : "B" ∈ (cutRows forkGraph (some ["B"]) []).map CutRow.id :=
    (perm_map_id_cutRows forkGraph (some ["B"]) []).mem_iff.2 (by decide)
  rcases List.mem_map.1 hrow with ⟨r, hr, _⟩
  rcases heldBy_nested_or_apart forkGraph with ⟨hpairs, hrows⟩
  rcases hpairs "A" hids.1 "B" hids.2 with ⟨_, hshared, honce⟩
  exact ⟨⟨hids.1, hids.2, by decide, acyclic_forkGraph, hEA, hEB⟩,
    hshared (by decide) "E" hEA hEB, honce acyclic_forkGraph hBA, r, hr, (hrows _ _ r hr).2⟩

end PackageAlgebra
