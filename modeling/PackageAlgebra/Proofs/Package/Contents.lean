import PackageAlgebra.Calculator.Functions
import PackageAlgebra.Proofs.Package.Universe
import PackageAlgebra.Symbol.Oracle

/-!
# What Sets Hold

Operations on sets make no nodes of their own.

Whatever an operation puts into a set has been in one of its operands, or is what a node of an
operand leads to, or is a copy of a node with fewer imports. And whatever it puts in goes in
under its own id. So if nodes of some kind import nodes of that kind only, and their copies are
of that kind again, then sets of such nodes make sets of such nodes, in whatever way they are
combined.

Most operations take a set and leave some members out, or write nodes into a set one by one.
Each of these has one lemma, and the operations of queries are put together from them.

## Main definitions

* `PackageSet.Filed`: A set holds nodes of a kind, each under its own id.
* `Catalog.Keeps`: Imports and copies do not lead out of a kind of nodes.

## Theorems

* `PackageSet.Filed.filter`, `PackageSet.Filed.foldl_insert`: Members are left out, or written.
* `forall_closure`: A walk meets nodes of the kind from which it starts.
* `Filed.applyAll`, `Filed.selection`: Functions and selectors.
-/

namespace PackageAlgebra

open Relation

variable {ρ : Type} {catalog : Catalog ρ} {P Q : Node ρ → Prop} {a b : PackageSet ρ}
  {nodes : List (Node ρ)} {sets : List (PackageSet ρ)} {p : Node ρ} {id : String}

/-- A set holds nodes of a kind, each under its own id. -/
def PackageSet.Filed (P : Node ρ → Prop) (a : PackageSet ρ) : Prop :=
  ∀ e ∈ a.entries, e.2.id = e.1 ∧ P e.2

/-- Imports and copies do not lead out of a kind of nodes. -/
structure Catalog.Keeps (catalog : Catalog ρ) (P : Node ρ → Prop) : Prop where
  -- What a node imports is of the kind.
  imported : ∀ {p q : Node ρ}, P p → q ∈ p.imported catalog → P q
  -- A copy without implied imports is of the kind.
  reduced : ∀ {p : Node ρ}, P p → P (PackageSet.reduced catalog p)

namespace PackageSet.Filed

theorem mono (h : a.Filed P) (hmono : ∀ p, P p → Q p) : a.Filed Q :=
  fun e he => ⟨(h e he).1, hmono e.2 (h e he).2⟩

theorem empty : PackageSet.Filed P .empty :=
  fun _ he => absurd he List.not_mem_nil

theorem of_mem_values (h : a.Filed P) (hp : p ∈ a.values) : P p := by
  rcases List.mem_map.1 hp with ⟨e, he, rfl⟩
  exact (h e he).2

theorem of_get? (h : a.Filed P) (hp : a.get? id = some p) : p.id = id ∧ P p :=
  h (id, p) (OrderedMap.get?_eq_some_iff.1 hp)

/-- Members may be left out. -/
theorem filter (h : a.Filed P) (keep : String → Node ρ → Bool) :
    PackageSet.Filed P (a.filter keep) :=
  fun e he => h e (List.mem_filter.1 he).1

/-- Nodes may be written, under their ids. -/
theorem foldl_insert {ι : Type} {key : ι → String} {value : ι → Node ρ} {l : List ι}
    (h : a.Filed P) (hl : ∀ i ∈ l, (value i).id = key i ∧ P (value i)) :
    PackageSet.Filed P (l.foldl (fun m i => m.insert (key i) (value i)) a) := by
  intro e he
  rcases OrderedMap.mem_of_mem_foldl_insert he with hold | ⟨i, hi, rfl⟩
  · exact h e hold
  · exact hl i hi

theorem ofList {l : List (String × Node ρ)} (hl : ∀ e ∈ l, e.2.id = e.1 ∧ P e.2) :
    PackageSet.Filed P (OrderedMap.ofList l) :=
  fun e he => hl e (OrderedMap.mem_of_mem_entries_ofList he)

theorem ofRoots (h : ∀ p ∈ nodes, P p) : (PackageSet.ofRoots nodes).Filed P := by
  refine ofList fun e he => ?_
  rcases List.mem_map.1 he with ⟨p, hp, rfl⟩
  exact ⟨rfl, h p hp⟩

/-! ### The algebra of ids -/

theorem insertIfNew (h : a.Filed P) (hp : p.id = id ∧ P p) :
    PackageSet.Filed P (a.insertIfNew id p) := by
  unfold OrderedMap.insertIfNew
  split
  · exact h
  · intro e he
    rcases mem_of_mem_put he with rfl | hold
    · exact hp
    · exact h e hold

theorem union (ha : a.Filed P) (hb : b.Filed P) : (a.union b).Filed P := by
  unfold PackageSet.union
  unfold PackageSet.Filed at hb
  generalize b.entries = entries at hb
  induction entries generalizing a with
  | nil => exact ha
  | cons e rest ih =>
      rw [List.forall_mem_cons] at hb
      exact ih (ha.insertIfNew hb.1) hb.2

theorem subtract (ha : a.Filed P) (b : PackageSet ρ) : (a.subtract b).Filed P := ha.filter _

theorem intersect (ha : a.Filed P) (b : PackageSet ρ) : (a.intersect b).Filed P := by
  refine ofList fun e he => ?_
  rcases List.mem_filterMap.1 he with ⟨id, -, hget⟩
  rcases Option.map_eq_some_iff.1 hget with ⟨p, hp, rfl⟩
  exact ha.of_get? hp

theorem symmetricDifference (ha : a.Filed P) (hb : b.Filed P) :
    (a.symmetricDifference b).Filed P :=
  (ha.subtract b).foldl_insert (hb.subtract a)

/-- An operation on two sets. -/
theorem apply (op : SetOp) (ha : a.Filed P) (hb : b.Filed P) : (op.apply a b).Filed P := by
  cases op with
  | union => exact ha.union hb
  | subtract => exact ha.subtract b
  | intersect => exact ha.intersect b
  | symmetricDifference => exact ha.symmetricDifference hb

theorem foldl_apply (op : SetOp) (ha : a.Filed P) (h : ∀ b ∈ sets, b.Filed P) :
    PackageSet.Filed P (sets.foldl op.apply a) := by
  induction sets generalizing a with
  | nil => exact ha
  | cons b rest ih =>
      rw [List.forall_mem_cons] at h
      exact ih (ha.apply op h.1) h.2

/-- An operation on any number of sets. -/
theorem applyAll (op : SetOp) (h : ∀ a ∈ sets, a.Filed P) : (op.applyAll sets).Filed P := by
  cases sets with
  | nil => exact empty
  | cons a rest =>
      rw [List.forall_mem_cons] at h
      exact h.1.foldl_apply op h.2

theorem unionAll (h : ∀ a ∈ sets, a.Filed P) : (PackageSet.unionAll sets).Filed P :=
  empty.foldl_apply .union h

/-- A selection combined with its operand. -/
theorem combine (c : Combinator) (ha : a.Filed P) (hb : b.Filed P) : (c.apply a b).Filed P := by
  cases c with
  | keep => exact hb
  | add => exact ha.union hb
  | remove => exact ha.subtract b

end PackageSet.Filed

/-! ### Walks -/

/-- A walk meets nodes of the kind from which it starts. -/
theorem forall_closure (h : catalog.Keeps P) (hnodes : ∀ p ∈ nodes, P p) :
    ∀ p ∈ Node.closure catalog nodes, P p := by
  intro p hp
  rcases (explored_walk _ _ _ _).reached p hp with ⟨start, hstart, -, hpath⟩
  clear hp
  induction hpath with
  | refl => exact hnodes start hstart
  | tail _ hstep ih => exact h.imported ih (List.mem_reverse.1 hstep.1)

namespace PackageSet.Filed

theorem forall_walkMembers (h : catalog.Keeps P) (ha : a.Filed P) :
    ∀ p ∈ PackageSet.walkMembers catalog a, P p :=
  forall_closure h fun _ hp => ha.of_mem_values (List.mem_reverse.1 hp)

theorem ofClosure (h : catalog.Keeps P) (hnodes : ∀ p ∈ nodes, P p) :
    (PackageSet.ofClosure catalog nodes).Filed P :=
  ofRoots (forall_closure h hnodes)

theorem reach (ha : a.Filed P) (catalog : Catalog ρ) (b : PackageSet ρ) :
    (a.reach catalog b).Filed P := ha.filter _

theorem incoming (ha : a.Filed P) (hb : b.Filed P) (catalog : Catalog ρ) :
    (a.incoming catalog b).Filed P :=
  hb.foldl_insert fun _ hp => ⟨rfl, ha.of_mem_values (List.mem_filter.1 hp).1⟩

theorem transitive (h : catalog.Keeps P) (ha : a.Filed P) : (a.transitive catalog).Filed P := by
  refine ofList fun e he => ?_
  rcases List.mem_map.1 he with ⟨p, hp, rfl⟩
  exact ⟨rfl, h.reduced (ha.of_mem_values hp)⟩

theorem directDependencies (h : catalog.Keeps P) (ha : a.Filed P) :
    (a.directDependencies catalog).Filed P := by
  refine ofList fun e he => ?_
  rcases List.mem_filterMap.1 he with ⟨q, hq, hnew⟩
  rcases List.mem_flatMap.1 hq with ⟨p, hp, himported⟩
  rw [Option.ite_none_left_eq_some, Option.some.injEq] at hnew
  rw [← hnew.2]
  exact ⟨rfl, h.imported (ha.of_mem_values hp) himported⟩

theorem moduleDependencies (h : catalog.Keeps P) (ha : a.Filed P) :
    (a.moduleDependencies catalog).Filed P :=
  ha.foldl_insert fun p hp => ⟨rfl, ha.forall_walkMembers h p (List.mem_filter.1 hp).1⟩

theorem keptAlive (ha : a.Filed P) (g : SymbolGraph) : (a.keptAlive g).Filed P := ha.filter _

/-- What a selection makes of an operand. -/
theorem selection (h : catalog.Keeps P) (ha : a.Filed P) (c : Combinator) (s : Selection) :
    (s.apply catalog c a).Filed P := by
  cases s with
  | test => exact ha.combine c (ha.filter _)
  | all => exact ha.combine c (ofClosure h fun _ hp => ha.of_mem_values hp)
  | modules => exact ha.moduleDependencies h
  | imports => exact ha.combine c (ha.directDependencies h)
  | sources => exact ha.combine c (ha.filter _)
  | noSources => exact ha.combine c (ha.subtract _)
  | main => exact ha.combine c (ha.filter _)

end PackageSet.Filed

end PackageAlgebra
