import Mathlib.Data.List.Basic
import PackageAlgebra.Proofs.Package.Contents

/-!
# What Operations Read

Operations on sets read of a catalog only what lies behind the members.

A catalog has the nodes of all universes that have been built, so it grows while a calculation goes
on, and what an operation on sets makes of its operands might depend on when it is applied. It does
not, as long as the members are of a kind of nodes that imports do not lead out of, and the two
catalogs agree on the references of such nodes. A walk that starts from them never asks for
anything else. It carries along which ids are known, and two catalogs know different ids; but of
each id that it comes across, both of them know.

## Main definitions

* `Catalog.AgreesWith`: The references of nodes of a kind lead to the same nodes.

## Theorems

* `Catalog.AgreesWith.closure`: What is met from nodes of the kind.
* `Catalog.AgreesWith.selection`: Selections; other operations have lemmas of their own.
-/

namespace PackageAlgebra

variable {ρ : Type} {c d : Catalog ρ} {P : Node ρ → Prop} {a b : PackageSet ρ}
  {nodes : List (Node ρ)} {p : Node ρ}

/-- Imports do not lead out of a kind of nodes, and lead to the same nodes in another catalog. -/
structure Catalog.AgreesWith (c d : Catalog ρ) (P : Node ρ → Prop) : Prop where
  -- Imports and copies are of the kind.
  keeps : c.Keeps P
  -- References of such nodes lead to the same nodes.
  get? : ∀ {p : Node ρ}, P p → ∀ e ∈ p.imports.entries, c.get? e.2 = d.get? e.2

namespace Catalog.AgreesWith

variable (h : c.AgreesWith d P)

include h

theorem imported (hp : P p) : p.imported c = p.imported d := by
  refine List.filterMap_congr fun ref href => ?_
  rcases List.mem_map.1 href with ⟨e, he, rfl⟩
  exact h.get? hp e he

theorem importedIds (hp : P p) : p.importedIds c = p.importedIds d :=
  congrArg (List.map Node.id) (h.imported hp)

/-- What lies behind a node of the kind are nodes of the kind, the same in both catalogs. -/
theorem successors (hp : P p) :
    p.successors c = p.successors d ∧ ∀ q ∈ p.successors c, P q :=
  ⟨congrArg List.reverse (h.imported hp), fun _ hq => h.keeps.imported hp (List.mem_reverse.1 hq)⟩

/-- What lies behind a node of the kind is known to both catalogs. -/
theorem mem_ids {q : Node ρ} (hp : P p) (hq : q ∈ p.successors c) : q.id ∈ c.ids ∧ q.id ∈ d.ids :=
  ⟨Node.mem_ids_of_mem_imported (List.mem_reverse.1 hq),
    Node.mem_ids_of_mem_imported (List.mem_reverse.1 ((h.successors hp).1 ▸ hq))⟩

theorem closure (hnodes : ∀ p ∈ nodes, P p) : Node.closure c nodes = Node.closure d nodes := by
  refine walk_congr_on hnodes (fun p hp => h.successors hp) fun q hq => ?_
  unfold Node.knownIds
  rw [List.mem_append, List.mem_append]
  rcases hq with hq | ⟨p, hp, hq⟩
  · exact iff_of_true (.inl (List.mem_map_of_mem hq)) (.inl (List.mem_map_of_mem hq))
  · exact iff_of_true (.inr (h.mem_ids hp hq).1) (.inr (h.mem_ids hp hq).2)

theorem dependencies (hp : P p) (visited : List String) :
    p.dependencies c visited = p.dependencies d visited := by
  unfold Node.dependencies
  rw [← (h.successors hp).1]
  refine congrArg (List.map Node.id) (walk_congr_on (h.successors hp).2
    (fun q hq => h.successors hq) fun q hq => ?_)
  have hids : q.id ∈ c.ids ∧ q.id ∈ d.ids := by
    rcases hq with hq | ⟨r, hr, hq⟩
    · exact h.mem_ids hp hq
    · exact h.mem_ids hr hq
  simp only [List.mem_filter, hids]

theorem indirect (hp : P p) : PackageSet.indirect c p = PackageSet.indirect d p := by
  have hall : ∀ q ∈ p.imported c, P q := fun q hq => h.keeps.imported hp hq
  unfold PackageSet.indirect
  rw [← h.imported hp]
  generalize p.imported c = imported at hall
  generalize ([] : List String) = visited
  induction imported generalizing visited with
  | nil => rfl
  | cons q rest ih =>
      rw [List.forall_mem_cons] at hall
      rw [List.foldl_cons, List.foldl_cons, h.dependencies hall.1, ih hall.2]

theorem reduced (hp : P p) : PackageSet.reduced c p = PackageSet.reduced d p := by
  have himports : (PackageSet.reduced c p).imports = (PackageSet.reduced d p).imports := by
    refine OrderedMap.eq_of_entries_eq (List.filter_congr fun e he => ?_)
    dsimp only
    rw [h.get? hp e he, h.indirect hp]
  unfold PackageSet.reduced at himports ⊢
  dsimp only at himports ⊢
  rw [himports]

theorem edges (hnodes : ∀ p ∈ nodes, P p) :
    PackageSet.edges c nodes = PackageSet.edges d nodes := by
  unfold PackageSet.edges List.flatMap
  refine congrArg List.flatten (List.map_congr_left fun p hp => ?_)
  rw [h.importedIds (hnodes p hp)]

/-! ### Operations on sets -/

theorem walkMembers (ha : ∀ p ∈ a.values, P p) : a.walkMembers c = a.walkMembers d :=
  h.closure fun p hp => ha p (List.mem_reverse.1 hp)

theorem forall_walkMembers (ha : ∀ p ∈ a.values, P p) : ∀ p ∈ a.walkMembers c, P p :=
  forall_closure h.keeps fun p hp => ha p (List.mem_reverse.1 hp)

theorem ofClosure (hnodes : ∀ p ∈ nodes, P p) :
    PackageSet.ofClosure c nodes = PackageSet.ofClosure d nodes := by
  unfold PackageSet.ofClosure
  rw [h.closure hnodes]

theorem reach (ha : ∀ p ∈ a.values, P p) (b : PackageSet ρ) : a.reach c b = a.reach d b := by
  unfold PackageSet.reach
  rw [h.edges (h.forall_walkMembers ha), h.walkMembers ha]

theorem incoming (ha : ∀ p ∈ a.values, P p) (b : PackageSet ρ) :
    a.incoming c b = a.incoming d b := by
  unfold PackageSet.incoming
  rw [List.filter_congr fun p hp => by rw [h.importedIds (ha p hp)]]

theorem transitive (ha : ∀ p ∈ a.values, P p) : a.transitive c = a.transitive d := by
  unfold PackageSet.transitive
  rw [List.map_congr_left fun p hp => by rw [h.reduced (ha p hp)]]

theorem sources (ha : ∀ p ∈ a.values, P p) : a.sources c = a.sources d := by
  have himported : (a.walkMembers c).flatMap (·.importedIds c) =
      (a.walkMembers d).flatMap (·.importedIds d) := by
    rw [← h.walkMembers ha]
    unfold List.flatMap
    rw [List.map_congr_left fun p hp => h.importedIds (h.forall_walkMembers ha p hp)]
  unfold PackageSet.sources
  rw [himported]

theorem directDependencies (ha : ∀ p ∈ a.values, P p) :
    a.directDependencies c = a.directDependencies d := by
  have himported : a.values.flatMap (·.imported c) = a.values.flatMap (·.imported d) := by
    unfold List.flatMap
    rw [List.map_congr_left fun p hp => h.imported (ha p hp)]
  unfold PackageSet.directDependencies
  rw [himported]

theorem moduleDependencies (ha : ∀ p ∈ a.values, P p) :
    a.moduleDependencies c = a.moduleDependencies d := by
  unfold PackageSet.moduleDependencies
  rw [h.walkMembers ha]

/-- What a selection makes of a set of nodes of the kind. -/
theorem selection (ha : ∀ p ∈ a.values, P p) (combinator : Combinator) (s : Selection) :
    s.apply c combinator a = s.apply d combinator a := by
  unfold Selection.apply
  cases s with
  | test => rfl
  | all => rw [h.ofClosure ha]
  | modules => exact h.moduleDependencies ha
  | imports => rw [h.directDependencies ha]
  | sources => rw [h.sources ha]
  | noSources => rw [h.sources ha]
  | main => rfl

end Catalog.AgreesWith

end PackageAlgebra
