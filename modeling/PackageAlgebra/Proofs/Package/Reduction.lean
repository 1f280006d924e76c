import PackageAlgebra.Proofs.Package.Barrier
import PackageAlgebra.Proofs.Package.Pruning

/-!
# Reductions of Package Sets

What a set without implied imports still knows about the imports of its members.

The implied imports of a member are found by walks from each of its imports, all of
which share one list of ids that were met. A walk that comes to such an id turns back,
so none of the walks alone has a meaning. What they share has: together they add all
that leads past the list as it was at the beginning, and it was empty. In the end the
list holds what the member leads to by a path of two imports or more, be the universe
acyclic or not.

A reduction thus drops the imports that have a detour, for all members at once, and
the question of what it preserves is one about graphs. In an acyclic universe it
preserves reachability and is as small as that allows. On a cycle it does not: there
each import counts as its own detour after one more turn. Reachability is preserved
exactly where no member is on a cycle, and where a member that imports something on
a cycle also imports something on no cycle that leads there.

## Main definitions

* `NodeUniverse.ReducedImports`: The imports after a reduction.

## Theorems

* `mem_indirect_iff`: The implied imports of a node are those with a detour.
* `reducedImports_iff`: A reduction drops the implied imports of its members.
* `transitive_reduces_acyclic`: The reduction of a set in an acyclic universe.
* `transitive_preserves_reach_iff`: When a reduction preserves reachability.
-/

namespace PackageAlgebra

open Relation

variable {ρ : Type} {catalog : Catalog ρ}

namespace NodeUniverse

/-- The imports after a reduction: members import what their reduced copies do, and all
    other nodes what they have always imported. -/
def ReducedImports (u : NodeUniverse catalog) (a : PackageSet ρ) (x y : String) : Prop :=
  match (a.transitive catalog).get? x with
  | some p => y ∈ p.importedIds catalog
  | none => u.Imports x y

variable {u : NodeUniverse catalog} {a : PackageSet ρ} {p q c : Node ρ} {visited : List String}
  {x y : String}

/-! ### Implied imports -/

/-- What the imports of a node lead to is what it leads to by a detour. -/
theorem mem_indirect_iff (hp : p ∈ u.nodes) :
    y ∈ PackageSet.indirect catalog p ↔ Detour u.Imports p.id y := by
  -- The walks begin with an empty list, which bars nothing.
  have hpast : u.Past [] = u.Imports := by
    funext x y
    exact propext (and_iff_left List.not_mem_nil)
  unfold PackageSet.indirect
  rw [mem_foldl_dependencies_iff _ fun c hc => u.imported_mem hp hc, hpast]
  constructor
  · rintro (hy | ⟨c, hc, hpath⟩)
    · exact absurd hy List.not_mem_nil
    · exact ⟨c.id, (imports_iff hp).2 (List.mem_map_of_mem hc), hpath⟩
  · rintro ⟨z, himports, hpath⟩
    rcases Node.mem_importedIds_iff.1 ((imports_iff hp).1 himports) with ⟨c, hc, rfl⟩
    exact Or.inr ⟨c, hc, hpath⟩

/-! ### Reduced copies -/

/-- A reduced copy keeps an import unless a detour leads where the import does. -/
theorem mem_imports_reduced_iff (hp : p ∈ u.nodes) {e : String × ρ} {d : Node ρ}
    (hd : catalog.get? e.2 = some d) :
    e ∈ (PackageSet.reduced catalog p).imports.entries ↔
      e ∈ p.imports.entries ∧ ¬ Detour u.Imports p.id d.id := by
  change e ∈ p.imports.entries.filter _ ↔ _
  simp only [List.mem_filter, hd, ← mem_indirect_iff hp, Bool.not_eq_true', decide_eq_false_iff_not,
    List.contains_eq_mem]

/-- A reduced copy imports the nodes to which there is no detour. -/
theorem mem_imported_reduced_iff (hp : p ∈ u.nodes) :
    q ∈ (PackageSet.reduced catalog p).imported catalog ↔
      q ∈ p.imported catalog ∧ ¬ Detour u.Imports p.id q.id := by
  rw [Node.mem_imported_iff, Node.mem_imported_iff]
  constructor
  · rintro ⟨e, he, hq⟩
    rcases (mem_imports_reduced_iff hp hq).1 he with ⟨he, hdetour⟩
    exact ⟨⟨e, he, hq⟩, hdetour⟩
  · rintro ⟨⟨e, he, hq⟩, hdetour⟩
    exact ⟨e, (mem_imports_reduced_iff hp hq).2 ⟨he, hdetour⟩, hq⟩

theorem mem_importedIds_reduced_iff (hp : p ∈ u.nodes) :
    y ∈ (PackageSet.reduced catalog p).importedIds catalog ↔
      u.Imports p.id y ∧ ¬ Detour u.Imports p.id y := by
  rw [imports_iff hp, Node.mem_importedIds_iff, Node.mem_importedIds_iff]
  constructor
  · rintro ⟨q, hq, rfl⟩
    rcases (mem_imported_reduced_iff hp).1 hq with ⟨hq, hdetour⟩
    exact ⟨⟨q, hq, rfl⟩, hdetour⟩
  · rintro ⟨⟨q, hq, rfl⟩, hdetour⟩
    exact ⟨q, (mem_imported_reduced_iff hp).2 ⟨hq, hdetour⟩, rfl⟩

/-- The reduction of a set holds the reduced copies of its members, in their order. -/
theorem entries_transitive (ha : a.DrawnFrom u) :
    (a.transitive catalog).entries =
      a.entries.map fun e => (e.1, PackageSet.reduced catalog e.2) := by
  have hentries : (a.values.map fun p => (p.id, PackageSet.reduced catalog p)) =
      a.entries.map fun e => (e.1, PackageSet.reduced catalog e.2) := by
    unfold OrderedMap.values
    rw [List.map_map]
    refine List.map_congr_left fun e he => ?_
    change (e.2.id, _) = _
    rw [(ha e he).2]
  unfold PackageSet.transitive
  rw [hentries]
  refine OrderedMap.entries_ofList ?_
  rw [List.map_map]
  exact a.nodup

theorem keys_transitive (ha : a.DrawnFrom u) : (a.transitive catalog).keys = a.keys := by
  unfold OrderedMap.keys
  rw [entries_transitive ha, List.map_map]
  rfl

theorem get?_transitive (ha : a.DrawnFrom u) (hp : a.get? x = some p) :
    (a.transitive catalog).get? x = some (PackageSet.reduced catalog p) := by
  rw [OrderedMap.get?_eq_some_iff, entries_transitive ha]
  exact List.mem_map.2 ⟨(x, p), OrderedMap.get?_eq_some_iff.1 hp, rfl⟩

/-- A reduction drops the imports of its members that have a detour. -/
theorem reducedImports_iff (ha : a.DrawnFrom u) :
    u.ReducedImports a x y ↔ Pruned u.Imports {x | x ∈ a.keys} x y := by
  by_cases hx : x ∈ a.keys
  · rcases OrderedMap.mem_keys_iff.1 hx with ⟨p, hget⟩
    rcases ha.node hget with ⟨hp, rfl⟩
    unfold ReducedImports Pruned
    rw [get?_transitive ha hget, Set.mem_ofPred_eq, forall_prop_of_true hx]
    exact mem_importedIds_reduced_iff hp
  · have hget : (a.transitive catalog).get? x = none := by
      rw [← keys_transitive ha, OrderedMap.mem_keys_iff] at hx
      exact Option.eq_none_iff_forall_ne_some.2 fun p hp => hx ⟨p, hp⟩
    unfold ReducedImports
    rw [hget]
    exact ⟨fun h => ⟨h, fun hmem => absurd hmem hx⟩, fun h => h.1⟩

theorem reducedImports_eq (ha : a.DrawnFrom u) :
    u.ReducedImports a = Pruned u.Imports {x | x ∈ a.keys} := by
  funext x y
  exact propext (reducedImports_iff ha)

end NodeUniverse

open NodeUniverse

variable {u : NodeUniverse catalog} {a : PackageSet ρ}

/-- The reduction of a set in an acyclic universe has the same members, and each of them
    keeps exactly those of its imports to which no path of two imports or more leads.
    What leads where stays the same, and none of the imports that are left could be
    removed without a loss: its member would not lead to where the import does. -/
theorem transitive_reduces_acyclic (hacyclic : u.Acyclic) (ha : a.DrawnFrom u) :
    (a.transitive catalog).keys = a.keys ∧
      (∀ x p, a.get? x = some p → ∃ q, (a.transitive catalog).get? x = some q ∧ q.id = p.id ∧
        ∀ key ref d, catalog.get? ref = some d →
          ((key, ref) ∈ q.imports.entries ↔
            (key, ref) ∈ p.imports.entries ∧ ¬ Detour u.Imports x d.id)) ∧
      (∀ x y, TransGen (u.ReducedImports a) x y ↔ TransGen u.Imports x y) ∧
      ∀ x ∈ a.keys, ∀ y, u.ReducedImports a x y →
        ¬ TransGen (fun v w => u.ReducedImports a v w ∧ ¬ (v = x ∧ w = y)) x y := by
  refine ⟨keys_transitive ha, fun x p hp => ?_, ?_, ?_⟩
  · rcases ha.node hp with ⟨hnode, rfl⟩
    exact ⟨PackageSet.reduced catalog p, get?_transitive ha hp, rfl,
      fun key ref d hd => mem_imports_reduced_iff hnode hd⟩
  · rw [reducedImports_eq ha, transGen_pruned_iff mem_ids_of_imports]
    exact ⟨fun x _ => hacyclic x, fun x _ y _ hcycle => absurd hcycle (hacyclic y)⟩
  · intro x hx y h
    rw [reducedImports_eq ha] at h ⊢
    exact not_transGen_without h hx

/-- In the ladder, `A` keeps its import of `B` and loses the one of `C`, and it still
    leads to `D`. -/
theorem transitive_reduces_acyclic_ladder :
    (ofListing ladder).Acyclic ∧ (listedSet ladder ["A", "C"]).DrawnFrom (ofListing ladder) ∧
      (∃ q, ((listedSet ladder ["A", "C"]).transitive
          (Catalog.ofMap (listedNodes ladder))).get? "A" = some q ∧
        ("B", "B") ∈ q.imports.entries ∧ ("C", "C") ∉ q.imports.entries) ∧
      TransGen ((ofListing ladder).ReducedImports (listedSet ladder ["A", "C"])) "A" "D" := by
  have hdrawn := drawnFrom_listedSet ladder ["A", "C"]
  have hAB : (ofListing ladder).Imports "A" "B" := by decide
  have hBC : (ofListing ladder).Imports "B" "C" := by decide
  have hAD : (ofListing ladder).Imports "A" "D" := by decide
  rcases transitive_reduces_acyclic acyclic_ladder hdrawn with ⟨_, hkept, hreach, _⟩
  refine ⟨acyclic_ladder, hdrawn, ?_, (hreach "A" "D").2 (.single hAD)⟩
  rcases hkept "A" (listedNode "A" ["B", "C", "D"]) (by rfl) with ⟨q, hq, _, himports⟩
  refine ⟨q, hq, ?_, fun hC => ?_⟩
  · refine (himports "B" "B" (listedNode "B" ["C"]) (by rfl)).2 ⟨by decide, ?_⟩
    -- Nothing but `A` imports `B`, so a detour would come back to `A`.
    have honly : ∀ p ∈ (listedNodes ladder).values,
        "B" ∈ p.importedIds (Catalog.ofMap (listedNodes ladder)) → p.id = "A" := by decide
    rintro ⟨z, hz, hpath⟩
    rcases TransGen.tail'_iff.1 hpath with ⟨_, hback, p, hp, rfl, hB⟩
    rw [honly p hp hB] at hback
    exact acyclic_ladder "A" (.head' hz hback)
  · exact ((himports "C" "C" (listedNode "C" ["D"]) (by rfl)).1 hC).2 ⟨"B", hAB, .single hBC⟩

/-- A reduction preserves what leads where if and only if none of the members is on a
    cycle, and a member that imports a node on a cycle also imports a node on no cycle
    that leads to it. -/
theorem transitive_preserves_reach_iff (ha : a.DrawnFrom u) :
    (∀ x y, TransGen (u.ReducedImports a) x y ↔ TransGen u.Imports x y) ↔
      (∀ x ∈ a.keys, ¬ TransGen u.Imports x x) ∧
        ∀ x ∈ a.keys, ∀ y, u.Imports x y → TransGen u.Imports y y →
          ∃ z, u.Imports x z ∧ ¬ TransGen u.Imports z z ∧ TransGen u.Imports z y := by
  rw [reducedImports_eq ha]
  exact transGen_pruned_iff mem_ids_of_imports

/-- A node before a loop, which it enters directly and by way of another node. -/
def loopListing : List (String × List String) :=
  [("P", ["Q", "R"]), ("Q", ["R"]), ("R", ["R"])]

/-- Before the loop, `P` loses its import of `R`, and leads there all the same. -/
theorem transitive_preserves_reach_loop :
    (listedSet loopListing ["P"]).DrawnFrom (ofListing loopListing) ∧
      ¬ (ofListing loopListing).ReducedImports (listedSet loopListing ["P"]) "P" "R" ∧
      ∀ x y, TransGen ((ofListing loopListing).ReducedImports (listedSet loopListing ["P"])) x y ↔
        TransGen (ofListing loopListing).Imports x y := by
  have hdrawn := drawnFrom_listedSet loopListing ["P"]
  have hPQ : (ofListing loopListing).Imports "P" "Q" := by decide
  have hQR : (ofListing loopListing).Imports "Q" "R" := by decide
  have hmember : ∀ x ∈ (listedSet loopListing ["P"]).keys, x = "P" := by decide
  -- Nothing imports `P`, and nothing but `P` imports `Q`.
  have himported : ∀ p ∈ (listedNodes loopListing).values,
      ∀ y ∈ p.importedIds (Catalog.ofMap (listedNodes loopListing)),
        y ≠ "P" ∧ (y = "Q" → p.id = "P") := by decide
  have hP : ∀ x, ¬ TransGen (ofListing loopListing).Imports x "P" := by
    intro x hpath
    rcases TransGen.tail'_iff.1 hpath with ⟨_, _, p, hp, _, hy⟩
    exact (himported p hp "P" hy).1 rfl
  have hQ : ¬ TransGen (ofListing loopListing).Imports "Q" "Q" := by
    intro hcycle
    rcases TransGen.tail'_iff.1 hcycle with ⟨_, hpath, p, hp, rfl, hy⟩
    rw [(himported p hp "Q" hy).2 rfl] at hpath
    rcases reflTransGen_iff_eq_or_transGen.1 hpath with heq | hpath
    · exact absurd heq (by decide)
    · exact hP "Q" hpath
  have hends : ∀ y, (ofListing loopListing).Imports "P" y → y = "Q" ∨ y = "R" := by
    have hlisted : ∀ p ∈ (listedNodes loopListing).values, p.id = "P" →
        ∀ y ∈ p.importedIds (Catalog.ofMap (listedNodes loopListing)), y = "Q" ∨ y = "R" := by
      decide
    rintro y ⟨p, hp, hid, hy⟩
    exact hlisted p hp hid y hy
  refine ⟨hdrawn, fun h => ?_, (transitive_preserves_reach_iff hdrawn).2 ⟨?_, ?_⟩⟩
  · exact ((reducedImports_iff hdrawn).1 h).2 (by decide) ⟨"Q", hPQ, .single hQR⟩
  · intro x hx
    rw [hmember x hx]
    exact hP "P"
  · intro x hx y himports hcycle
    rw [hmember x hx] at himports ⊢
    rcases hends y himports with rfl | rfl
    · exact absurd hcycle hQ
    · exact ⟨"Q", hPQ, hQ, .single hQR⟩

/-- Two nodes that import each other. -/
def pairListing : List (String × List String) := [("a", ["b"]), ("b", ["a"])]

/-- Two nodes that import each other both lose their only import, because each import
    is implied by going round once more. -/
theorem transitive_disconnects_pair :
    (listedSet pairListing ["a", "b"]).DrawnFrom (ofListing pairListing) ∧
      TransGen (ofListing pairListing).Imports "a" "b" ∧
      ¬ TransGen ((ofListing pairListing).ReducedImports (listedSet pairListing ["a", "b"]))
        "a" "b" := by
  have hdrawn := drawnFrom_listedSet pairListing ["a", "b"]
  have hab : (ofListing pairListing).Imports "a" "b" := by decide
  have hba : (ofListing pairListing).Imports "b" "a" := by decide
  refine ⟨hdrawn, .single hab, fun hpath => ?_⟩
  rcases TransGen.head'_iff.1 hpath with ⟨z, haz, _⟩
  have hpruned := (reducedImports_iff hdrawn).1 haz
  exact hpruned.2 (by decide) (detour_of_cycle hpruned.1 (Or.inl (.head hab (.single hba))))

end PackageAlgebra
