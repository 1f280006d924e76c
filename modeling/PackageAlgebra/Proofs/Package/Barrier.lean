import PackageAlgebra.Proofs.Package.Universe

/-!
# Walks past a List

What a walk from the imports of a node adds to a list of ids that it does not enter.

The list is both where the walk turns back and where it writes down what it meets. So the exact
effect of one walk depends on the list that it begins with: it adds the ids to which a path of
one or more imports leads that never touches this list, the node itself being free to lie on it.
That the list grows on the way does not matter. What lies behind an id that the walk has met is
met as well, and a path that would turn back there has nothing left to find.

The same reason lets walks share a list. Where a second walk turns back at what the first one has
met, the first one has gone on, and together they add what leads past the list as it was at the
beginning. A list that is closed under imports bars nothing that would not lie on it anyway, so
from there walks add all that their nodes lead to.

## Main definitions

* `NodeUniverse.Past`: One id imports another one that is not on a list.
* `NodeUniverse.Closes`: A list of ids holds what its ids import.

## Theorems

* `mem_dependencies_iff_past`: What one walk adds to a list.
* `mem_foldl_dependencies_iff`: What several walks add to a list that they share.
* `mem_or_past_of_closes`: A closed list bars nothing else.
* `walked_dependencies`: A walk comes to an end, and the number of its rounds.
* `dependencies_lead_past`: One walk as a whole.
-/

namespace PackageAlgebra

open Relation

variable {ρ : Type} {catalog : Catalog ρ}

namespace NodeUniverse

/-- One id imports another one that is not on a list. -/
def Past (u : NodeUniverse catalog) (visited : List String) (x y : String) : Prop :=
  u.Imports x y ∧ y ∉ visited

/-- A list of ids holds what its ids import. -/
def Closes (u : NodeUniverse catalog) (visited : List String) : Prop :=
  ∀ x ∈ visited, ∀ y, u.Imports x y → y ∈ visited

variable {u : NodeUniverse catalog} {p : Node ρ} {visited : List String} {x y : String}

/-! ### One walk -/

/-- A walk adds the ids to which its node leads past the list. -/
theorem mem_dependencies_iff_past (hp : p ∈ u.nodes) :
    y ∈ p.dependencies catalog visited ↔ TransGen (u.Past visited) p.id y := by
  rw [mem_dependencies_iff fun n hn => u.imported_mem hp hn, TransGen.head'_iff]
  refine exists_congr fun x => ?_
  unfold Past
  rw [imports_iff hp, and_assoc]

/-- Where a path leads past a list, its end is not on the list. -/
theorem not_mem_of_past (h : TransGen (u.Past visited) x y) : y ∉ visited := by
  rcases TransGen.tail'_iff.1 h with ⟨_, _, hstep⟩
  exact hstep.2

/-- A path past a list also leads past what a walk has added, or ends in it. -/
theorem mem_or_past_append (hp : p ∈ u.nodes) (h : TransGen (u.Past visited) x y) :
    y ∈ p.dependencies catalog visited ∨
      TransGen (u.Past (visited ++ p.dependencies catalog visited)) x y := by
  have hend : ∀ {y}, y ∉ visited → y ∉ p.dependencies catalog visited →
      y ∉ visited ++ p.dependencies catalog visited := by
    intro y hnew hmissed hmem
    exact (List.mem_append.1 hmem).elim hnew hmissed
  induction h with
  | @single y hstep =>
      by_cases hy : y ∈ p.dependencies catalog visited
      · exact .inl hy
      · exact .inr (.single ⟨hstep.1, hend hstep.2 hy⟩)
  | @tail b y _ hstep ih =>
      by_cases hy : y ∈ p.dependencies catalog visited
      · exact .inl hy
      · -- What lies behind something that was added was added too.
        refine .inr ((ih.resolve_left fun hb => hy ?_).tail ⟨hstep.1, hend hstep.2 hy⟩)
        exact (mem_dependencies_iff_past hp).2 (((mem_dependencies_iff_past hp).1 hb).tail hstep)

/-! ### Several walks -/

/-- Walks that share a list, one after the other, add the ids to which one of their nodes leads
    past the list as it was. -/
theorem mem_foldl_dependencies_iff (cs : List (Node ρ)) (hcs : ∀ c ∈ cs, c ∈ u.nodes) :
    y ∈ cs.foldl (fun visited c => visited ++ c.dependencies catalog visited) visited ↔
      y ∈ visited ∨ ∃ c ∈ cs, TransGen (u.Past visited) c.id y := by
  induction cs generalizing visited with
  | nil => simp only [List.foldl_nil, List.not_mem_nil, false_and, exists_false, or_false]
  | cons c rest ih =>
      rw [List.forall_mem_cons] at hcs
      have hpast : ∀ {x}, TransGen (u.Past (visited ++ c.dependencies catalog visited)) x y →
          TransGen (u.Past visited) x y := by
        intro x hpath
        refine TransGen.mono (fun _ _ hstep => ⟨hstep.1, fun hmem => ?_⟩) _ _ hpath
        exact hstep.2 (List.mem_append_left _ hmem)
      rw [List.foldl_cons, ih hcs.2, List.mem_append, mem_dependencies_iff_past hcs.1]
      simp only [List.mem_cons, exists_eq_or_imp, or_assoc]
      refine or_congr_right ⟨?_, ?_⟩
      · rintro (hc | ⟨d, hd, hpath⟩)
        · exact .inl hc
        · exact .inr ⟨d, hd, hpast hpath⟩
      · rintro (hc | ⟨d, hd, hpath⟩)
        · exact .inl hc
        · rcases mem_or_past_append hcs.1 hpath with hy | hpath
          · exact .inl ((mem_dependencies_iff_past hcs.1).1 hy)
          · exact .inr ⟨d, hd, hpath⟩

/-! ### Closed lists -/

/-- What an id leads to is on a closed list, or a path leads there past it. -/
theorem mem_or_past_of_closes (hclosed : u.Closes visited) (h : TransGen u.Imports x y) :
    y ∈ visited ∨ TransGen (u.Past visited) x y := by
  induction h with
  | @single y himports =>
      by_cases hy : y ∈ visited
      · exact .inl hy
      · exact .inr (.single ⟨himports, hy⟩)
  | @tail b y _ himports ih =>
      by_cases hy : y ∈ visited
      · exact .inl hy
      · -- The id before is not on the list either, or this one would be.
        have hb := ih.resolve_left fun hb => hy (hclosed b hb y himports)
        exact .inr (hb.tail ⟨himports, hy⟩)

/-- A walk that begins with a closed list leaves a closed list. -/
theorem Closes.append_dependencies (hclosed : u.Closes visited) (hp : p ∈ u.nodes) :
    u.Closes (visited ++ p.dependencies catalog visited) := by
  intro x hx y himports
  by_cases hy : y ∈ visited
  · exact List.mem_append_left _ hy
  · refine List.mem_append_right _ ?_
    rcases List.mem_append.1 hx with hx | hx
    · exact absurd (hclosed x hx y himports) hy
    · rw [mem_dependencies_iff_past hp] at hx ⊢
      exact hx.tail ⟨himports, hy⟩

/-! ### The walk as a whole -/

/-- A walk comes to an end. It has a round for each import of its node and of what it adds. -/
theorem walked_dependencies (catalog : Catalog ρ) (p : Node ρ) (visited : List String) :
    ∃ met, met.map Node.id = p.dependencies catalog visited ∧
      Walked Node.id (Node.successors catalog) visited (p.successors catalog) met
        ((p.successors catalog).length + (met.map fun q => (q.successors catalog).length).sum) := by
  refine ⟨_, rfl, walked_walk fun q hq => ?_⟩
  have hknown : q.id ∈ catalog.ids := by
    rcases hq with hq | ⟨n, hq⟩
    · exact Node.mem_ids_of_mem_imported (List.mem_reverse.1 hq)
    · exact Node.mem_ids_of_mem_imported (List.mem_reverse.1 hq)
  rw [List.mem_filter, decide_eq_true_eq, and_iff_right hknown]

theorem nodup_dependencies (catalog : Catalog ρ) (p : Node ρ) (visited : List String) :
    (p.dependencies catalog visited).Nodup := by
  rcases explored_dependencies catalog p visited with ⟨met, hmet, hexplored⟩
  rw [hmet]
  exact hexplored.nodup

/-- A walk from the imports of a node comes to an end, whatever list of ids it begins with. It
    adds the ids to which the node leads past the list, each once and none that was there. A
    closed list is closed again afterwards, and holds all that the node leads to. -/
theorem dependencies_lead_past (hp : p ∈ u.nodes) (visited : List String) :
    (∃ met, met.map Node.id = p.dependencies catalog visited ∧
      Walked Node.id (Node.successors catalog) visited (p.successors catalog) met
        ((p.successors catalog).length + (met.map fun q => (q.successors catalog).length).sum)) ∧
      (p.dependencies catalog visited).Nodup ∧
      (∀ y, y ∈ p.dependencies catalog visited ↔ TransGen (u.Past visited) p.id y) ∧
      (∀ y ∈ p.dependencies catalog visited, y ∉ visited) ∧
      (u.Closes visited → u.Closes (visited ++ p.dependencies catalog visited) ∧
        ∀ y, TransGen u.Imports p.id y → y ∈ visited ++ p.dependencies catalog visited) := by
  have hmem : ∀ y, y ∈ p.dependencies catalog visited ↔ TransGen (u.Past visited) p.id y :=
    fun y => mem_dependencies_iff_past hp
  refine ⟨walked_dependencies catalog p visited, nodup_dependencies catalog p visited, hmem,
    fun y hy => not_mem_of_past ((hmem y).1 hy), fun hclosed => ?_⟩
  refine ⟨hclosed.append_dependencies hp, fun y hpath => ?_⟩
  rw [List.mem_append, hmem]
  exact mem_or_past_of_closes hclosed hpath

/-- A loop of two nodes, one of which also leads out of it to another loop of two. -/
def crossing : List (String × List String) :=
  [("A", ["B", "C"]), ("B", ["A", "D"]), ("C", ["D"]), ("D", ["C"])]

/-- From one loop of the crossing a walk meets all of it, its own node too, unless the other
    node is barred. The second loop is closed. -/
theorem dependencies_lead_past_crossing :
    (ofListing crossing).Closes ["C", "D"] ∧
      ∃ p ∈ (ofListing crossing).nodes, p.id = "A" ∧
        "A" ∈ p.dependencies (Catalog.ofMap (listedNodes crossing)) [] ∧
        "A" ∉ p.dependencies (Catalog.ofMap (listedNodes crossing)) ["B"] ∧
        (ofListing crossing).Closes
          (["C", "D"] ++ p.dependencies (Catalog.ofMap (listedNodes crossing)) ["C", "D"]) := by
  have hclosed : (ofListing crossing).Closes ["C", "D"] := by
    have hlisted : ∀ p ∈ (listedNodes crossing).values, p.id ∈ ["C", "D"] →
        ∀ y ∈ p.importedIds (Catalog.ofMap (listedNodes crossing)), y ∈ ["C", "D"] := by decide
    rintro x hx y ⟨p, hp, rfl, hy⟩
    exact hlisted p hp hx y hy
  have hnode : ∃ p ∈ (listedNodes crossing).values, p.id = "A" := by decide
  rcases hnode with ⟨p, hp, hid⟩
  have hwalk := fun visited => dependencies_lead_past (u := ofListing crossing) hp visited
  rw [hid] at hwalk
  have hAB : (ofListing crossing).Imports "A" "B" := by decide
  have hBA : (ofListing crossing).Imports "B" "A" := by decide
  refine ⟨hclosed, p, hp, hid, ((hwalk []).2.2.1 "A").2 ?_, fun hA => ?_,
    ((hwalk ["C", "D"]).2.2.2.2 hclosed).1⟩
  · exact (TransGen.single ⟨hAB, List.not_mem_nil⟩).tail ⟨hBA, List.not_mem_nil⟩
  · -- Only the barred node imports the first one.
    have hfrom : ∀ p ∈ (listedNodes crossing).values,
        "A" ∈ p.importedIds (Catalog.ofMap (listedNodes crossing)) → p.id = "B" := by decide
    rcases TransGen.tail'_iff.1 (((hwalk ["B"]).2.2.1 "A").1 hA) with ⟨b, hpath, hstep, _⟩
    rcases hstep with ⟨q, hq, rfl, hy⟩
    rw [hfrom q hq hy] at hpath
    rcases hpath.cases_tail with hb | ⟨c, _, _, hb⟩
    · exact absurd hb (by decide)
    · exact hb List.mem_cons_self

end NodeUniverse

end PackageAlgebra
