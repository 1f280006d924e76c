import PackageAlgebra.Proofs.Package.Closure

/-!
# Sources

The members of a set from which all that it leads to can be had again.

A source is a member that nothing imports to which the set leads. Paths to a member may leave
the set and come back, so it is not enough to look at the imports of members. If a source is led
to at all, then by itself alone, and so whatever generates the closure of the set contains it:
there is no other way to get there.

Conversely the sources generate the closure if it has no cycle. A member that is not a source is
imported by something that a member leads to, so another member leads to it, and from member to
member this goes on backwards. It cannot come back to where it was, and the closure is finite,
so it ends, and it ends at a source. On a cycle it need not end: a set of two packages that import
each other has no sources at all.

## Theorems

* `PackageSet.DrawnFrom.mem_sources_iff`: Which members are sources.
* `PackageSet.DrawnFrom.eq_of_leads_to_source`: A source is led to by itself alone.
* `PackageSet.DrawnFrom.exists_source_leads`: In an acyclic closure a source leads to each member.
* `sources_generate_closure`: The sources of a set are its least generating set.
-/

namespace PackageAlgebra

open Relation NodeUniverse PackageSet

variable {ρ : Type} {catalog : Catalog ρ} {u : NodeUniverse catalog} {a b : PackageSet ρ}
  {x y : String}

namespace PackageSet

/-- The sources are the members that nothing in the closure imports. -/
theorem DrawnFrom.mem_sources_iff (ha : a.DrawnFrom u) {e : String × Node ρ} :
    e ∈ (a.sources catalog).entries ↔ e ∈ a.entries ∧
      ∀ y ∈ (PackageSet.ofClosure catalog a.values).keys, ¬ u.Imports y e.1 := by
  unfold sources OrderedMap.filter
  rw [List.mem_filter, Bool.not_eq_true', ← Bool.not_eq_true, List.contains_iff_mem,
    mem_importedIds_walkMembers_iff ha.holdsEditions]
  refine and_congr_right fun _ => ?_
  constructor
  · intro hnone y hy himports
    rcases ha.mem_keys_closure_iff.1 hy with ⟨x, hx, hpath⟩
    exact hnone ⟨x, hx, y, hpath, himports⟩
  · rintro hnone ⟨x, hx, y, hpath, himports⟩
    exact hnone y (ha.mem_keys_closure_iff.2 ⟨x, hx, hpath⟩) himports

/-- The members that are left are in the order of the set. -/
theorem sources_sublist (catalog : Catalog ρ) (a : PackageSet ρ) :
    (a.sources catalog).entries.Sublist a.entries := List.filter_sublist

/-- A source is led to by itself alone. -/
theorem DrawnFrom.eq_of_leads_to_source (ha : a.DrawnFrom u) {e : String × Node ρ}
    (he : e ∈ (a.sources catalog).entries) (hx : x ∈ a.keys)
    (hpath : ReflTransGen u.Imports x e.1) : x = e.1 := by
  rcases hpath.cases_tail with heq | ⟨y, hpath, himports⟩
  · exact heq.symm
  · exact absurd himports
      ((ha.mem_sources_iff.1 he).2 y (ha.mem_keys_closure_iff.2 ⟨x, hx, hpath⟩))

/-- In an acyclic closure each member is led to by a source. -/
theorem DrawnFrom.exists_source_leads (ha : a.DrawnFrom u)
    (hacyclic : ∀ x ∈ (PackageSet.ofClosure catalog a.values).keys, ¬ TransGen u.Imports x x)
    (hx : x ∈ a.keys) :
    ∃ s ∈ (a.sources catalog).keys, ReflTransGen u.Imports s x := by
  -- What leads to an id without being led to by it is below it.
  have hwf : WellFounded fun x y =>
      x ∈ (PackageSet.ofClosure catalog a.values).keys ∧ TransGen u.Imports x y :=
    wellFounded_of_list (PackageSet.ofClosure catalog a.values).keys
      (fun x y z hxy hyz => ⟨hxy.1, hxy.2.trans hyz.2⟩) (fun x hx => hacyclic x hx.1 hx.2)
      fun x y hxy => hxy.1
  induction x using hwf.induction with
  | _ x ih =>
      by_cases hsource : x ∈ (a.sources catalog).keys
      · exact ⟨x, hsource, .refl⟩
      · -- Something in the closure imports the member, and another member leads there.
        have himported : ∃ y ∈ (PackageSet.ofClosure catalog a.values).keys, u.Imports y x := by
          by_contra hnone
          rcases List.mem_map.1 hx with ⟨e, he, rfl⟩
          exact hsource (List.mem_map_of_mem (ha.mem_sources_iff.2
            ⟨he, fun y hy himports => hnone ⟨y, hy, himports⟩⟩))
        rcases himported with ⟨y, hy, himports⟩
        rcases ha.mem_keys_closure_iff.1 hy with ⟨z, hz, hpath⟩
        have hbelow : TransGen u.Imports z x := .tail' hpath himports
        rcases ih z ⟨ha.mem_keys_closure_iff.2 ⟨z, hz, .refl⟩, hbelow⟩ hz with ⟨s, hs, hleads⟩
        exact ⟨s, hs, hleads.trans hbelow.to_reflTransGen⟩

/-- In an acyclic closure the sources generate the closure. -/
theorem DrawnFrom.closure_sources_perm (ha : a.DrawnFrom u)
    (hacyclic : ∀ x ∈ (PackageSet.ofClosure catalog a.values).keys, ¬ TransGen u.Imports x x) :
    (PackageSet.ofClosure catalog (a.sources catalog).values).entries.Perm
      (PackageSet.ofClosure catalog a.values).entries := by
  have hsub := (sources_sublist catalog a).subset
  have hsources := ha.of_subset hsub
  refine (hsources.closure.perm_iff ha.closure).2 fun y => ?_
  constructor
  · exact (hsources.closure.subset_iff ha.closure).1 (ha.closure_mono hsub) y
  · intro hy
    rcases ha.mem_keys_closure_iff.1 hy with ⟨x, hx, hpath⟩
    rcases ha.exists_source_leads hacyclic hx with ⟨s, hs, hleads⟩
    exact hsources.mem_keys_closure_iff.2 ⟨s, hs, hleads.trans hpath⟩

/-- Whatever part of a set generates its closure contains the sources. -/
theorem DrawnFrom.sources_subset_of_closure_perm (ha : a.DrawnFrom u)
    (hsub : b.entries ⊆ a.entries)
    (hsame : (PackageSet.ofClosure catalog b.values).entries.Perm
      (PackageSet.ofClosure catalog a.values).entries) :
    (a.sources catalog).entries ⊆ b.entries := by
  intro e he
  have hb := ha.of_subset hsub
  have hmember := (ha.mem_sources_iff.1 he).1
  -- The source is led to from the part as well, and can only be led to by itself.
  have hled : e.1 ∈ (PackageSet.ofClosure catalog b.values).keys :=
    List.mem_map_of_mem (hsame.symm.subset (ha.isClosureOf.contains hmember))
  rcases hb.mem_keys_closure_iff.1 hled with ⟨x, hx, hpath⟩
  have heq := ha.eq_of_leads_to_source he ((hb.subset_iff ha).1 hsub x hx) hpath
  exact ha.mem_entries hb hmember (heq ▸ hx)

end PackageSet

/-- The sources of a set are the members that nothing imports to which the set leads. If that is
    acyclic, the sources lead to all of it, and they are a part of every part of the set that
    does. -/
theorem sources_generate_closure (ha : a.DrawnFrom u) :
    (sources catalog a).entries.Sublist a.entries ∧
      (∀ e, e ∈ (sources catalog a).entries ↔ e ∈ a.entries ∧
        ∀ y ∈ (ofClosure catalog a.values).keys, ¬ u.Imports y e.1) ∧
      ((∀ x ∈ (ofClosure catalog a.values).keys, ¬ TransGen u.Imports x x) →
        (ofClosure catalog (sources catalog a).values).entries.Perm
          (ofClosure catalog a.values).entries) ∧
      ∀ b : PackageSet ρ, b.entries ⊆ a.entries →
        (ofClosure catalog b.values).entries.Perm (ofClosure catalog a.values).entries →
        (sources catalog a).entries ⊆ b.entries :=
  ⟨sources_sublist catalog a, fun _ => ha.mem_sources_iff, ha.closure_sources_perm,
    fun _ hsub hsame => ha.sources_subset_of_closure_perm hsub hsame⟩

/-- In the ladder, `B` leads to `D` by way of `C`, which is in the closure and not in the set. -/
theorem sources_generate_closure_ladder :
    (listedSet ladder ["B", "D"]).DrawnFrom (ofListing ladder) ∧ (ofListing ladder).Acyclic ∧
      "D" ∉ (sources (Catalog.ofMap (listedNodes ladder)) (listedSet ladder ["B", "D"])).keys ∧
      "C" ∈ (ofClosure (Catalog.ofMap (listedNodes ladder))
        (sources (Catalog.ofMap (listedNodes ladder)) (listedSet ladder ["B", "D"])).values).keys := by
  have hdrawn := drawnFrom_listedSet ladder ["B", "D"]
  have hmember : "B" ∈ (listedSet ladder ["B", "D"]).keys := by decide
  have hBC : (ofListing ladder).Imports "B" "C" := by decide
  have hCD : (ofListing ladder).Imports "C" "D" := by decide
  have hC := hdrawn.mem_keys_closure_iff.2 ⟨"B", hmember, .single hBC⟩
  rcases sources_generate_closure hdrawn with ⟨-, hsources, hgenerate, -⟩
  refine ⟨hdrawn, acyclic_ladder, fun hD => ?_, ?_⟩
  · rcases List.mem_map.1 hD with ⟨e, he, hid⟩
    exact ((hsources e).1 he).2 "C" hC (hid ▸ hCD)
  · exact ((hgenerate fun x _ => acyclic_ladder x).map Prod.fst).symm.subset hC

end PackageAlgebra
