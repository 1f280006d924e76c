import PackageAlgebra.Proofs.Package.Reduction

/-!
# Surveys

What the nodes that a walk has met know of the universe.

A query walks from the members of a set and works on the nodes that it meets. If some
of the members are reduced copies, an id has two nodes, and which of them is met
depends on the order of the walk: the copy if it comes up on the stack, or the node if
an import leads to it first. The edges that the query sees depend on that as well.
What these edges lead to does not. The ids met under a reduced copy are vertices that
have lost their edges with a detour, and those that are left lead wherever all edges
do, whichever ids they are.

This holds in an acyclic universe, and in others for the copies to which the same
condition applies. A node of the universe and such a copy are both an edition of the
node; queries cannot tell them apart by what they lead to.

## Main definitions

* `NodeUniverse.IsEdition`: A node, or a reduced copy that leads wherever it does.
* `PackageSet.HoldsEditions`: A set of editions, under their ids.
* `NodeUniverse.Survey`: What is known from the nodes that a walk has met.

## Theorems

* `PackageSet.mem_leadingTo_iff`: The ids that lead to others along edges.
* `NodeUniverse.IsEdition.leads_iff`: An edition leads wherever its node does.
* `NodeUniverse.survey_closure`: A walk from editions is a survey.
* `PackageSet.HoldsEditions.survey`: So is a walk from the members of a set.
-/

namespace PackageAlgebra

open Relation

variable {ρ : Type} {catalog : Catalog ρ}

/-! ### Edges -/

namespace PackageSet

theorem mem_edges_iff {nodes : List (Node ρ)} {x y : String} :
    (x, y) ∈ edges catalog nodes ↔ ∃ p ∈ nodes, p.id = x ∧ y ∈ p.importedIds catalog := by
  simp only [edges, List.mem_flatMap, List.mem_map, Prod.mk.injEq]
  constructor
  · rintro ⟨p, hp, _, hy, hid, rfl⟩
    exact ⟨p, hp, hid, hy⟩
  · rintro ⟨p, hp, hid, hy⟩
    exact ⟨p, hp, y, hy, hid, rfl⟩

/-- The ids from which edges lead to one of the targets. -/
theorem mem_leadingTo_iff {edges : List (String × String)} {targets : List String} {x : String} :
    x ∈ leadingTo edges targets ↔
      ∃ t ∈ targets, ReflTransGen (fun y z => (y, z) ∈ edges) x t := by
  have hback : ∀ {y z : String}, y ∈ (edges.filter (·.2 = z)).map Prod.fst ↔ (y, z) ∈ edges := by
    intro y z
    simp
  have hknown : ∀ z, ∀ y ∈ (edges.filter (·.2 = z)).map Prod.fst,
      y ∈ targets ++ edges.map Prod.fst :=
    fun _ _ hy => List.mem_append_right _ (List.mem_map_of_mem (hback.1 hy))
  unfold leadingTo
  rw [mem_walk_self_iff (fun _ hy => List.mem_append_left _ hy) hknown]
  simp only [hback]
  exact exists_congr fun t => and_congr_right fun _ => reflTransGen_swap

end PackageSet

namespace NodeUniverse

/-! ### Editions -/

/-- A node of the universe, or the reduced copy of a node that is on no cycle itself and
    approaches the cycles that it imports. -/
def IsEdition (u : NodeUniverse catalog) (p : Node ρ) : Prop :=
  p ∈ u.nodes ∨ ∃ q ∈ u.nodes, p = PackageSet.reduced catalog q ∧
    ¬ TransGen u.Imports q.id q.id ∧ ApproachesCycles u.Imports q.id

variable {u : NodeUniverse catalog} {p : Node ρ} {x y : String}

theorem IsEdition.stands (hp : u.IsEdition p) : u.Stands p := by
  rcases hp with hp | ⟨q, hq, rfl, _⟩
  · exact stands_of_mem hp
  · exact ⟨q, hq, rfl, fun n hn => ((mem_imported_reduced_iff hq).1 hn).1⟩

/-- An edition leads wherever its node does. -/
theorem IsEdition.leads_iff (hp : u.IsEdition p) :
    TransGen u.Imports p.id y ↔ ∃ x ∈ p.importedIds catalog, ReflTransGen u.Imports x y := by
  constructor
  · intro hpath
    rcases TransGen.head'_iff.1 hpath with ⟨z, himports, hrest⟩
    rcases hp with hp | ⟨q, hq, rfl, _, happroach⟩
    · exact ⟨z, (imports_iff hp).1 himports, hrest⟩
    · have hleft : ∃ x, Pruned u.Imports {x | x = q.id} q.id x ∧ ReflTransGen u.Imports x z :=
        exists_pruned_toward mem_ids_of_imports happroach himports
      rcases hleft with ⟨x, hpruned, hxz⟩
      exact ⟨x, (mem_importedIds_reduced_iff hq).2 ⟨hpruned.1, hpruned.2 rfl⟩, hxz.trans hrest⟩
  · rintro ⟨x, hx, hpath⟩
    rcases Node.mem_importedIds_iff.1 hx with ⟨n, hn, rfl⟩
    exact .head' (hp.stands.imports hn).2 hpath

/-! ### Edges between editions -/

variable {met : List (Node ρ)}

/-- The ids that were met under a reduced copy. -/
def reducedIds (u : NodeUniverse catalog) (met : List (Node ρ)) : Set String :=
  {x | ∃ p ∈ met, p.id = x ∧ p ∉ u.nodes}

/-- What was met has the edges that are left to reduced copies. -/
theorem mem_edges_iff_pruned (hnodup : (met.map Node.id).Nodup)
    (hedition : ∀ p ∈ met, u.IsEdition p) (hp : p ∈ met) :
    (p.id, y) ∈ PackageSet.edges catalog met ↔
      Pruned u.Imports (u.reducedIds met) p.id y := by
  have hsame : ∀ q ∈ met, q.id = p.id → q = p := fun q hq hid =>
    List.inj_on_of_nodup_map hnodup hq hp hid
  have hedges : (p.id, y) ∈ PackageSet.edges catalog met ↔ y ∈ p.importedIds catalog := by
    rw [PackageSet.mem_edges_iff]
    constructor
    · rintro ⟨q, hq, hid, hy⟩
      rw [← hsame q hq hid]
      exact hy
    · exact fun hy => ⟨p, hp, rfl, hy⟩
  rw [hedges]
  by_cases hnode : p ∈ u.nodes
  · have hwhole : p.id ∉ u.reducedIds met := by
      rintro ⟨q, hq, hid, hcopy⟩
      rw [hsame q hq hid] at hcopy
      exact hcopy hnode
    rw [← imports_iff hnode]
    exact ⟨fun h => ⟨h, fun hmem => absurd hmem hwhole⟩, fun h => h.1⟩
  · have hcopy : p.id ∈ u.reducedIds met := ⟨p, hp, rfl, hnode⟩
    rcases (hedition p hp).resolve_left hnode with ⟨q, hq, rfl, _⟩
    rw [mem_importedIds_reduced_iff hq]
    exact ⟨fun h => ⟨h.1, fun _ => h.2⟩, fun h => ⟨h.1, h.2 hcopy⟩⟩

/-- The edges between editions lead wherever imports do. -/
theorem transGen_edges_iff (hnodup : (met.map Node.id).Nodup)
    (hedition : ∀ p ∈ met, u.IsEdition p)
    (hclosed : ∀ x y, (x, y) ∈ PackageSet.edges catalog met → y ∈ met.map Node.id) :
    TransGen (fun x y => (x, y) ∈ PackageSet.edges catalog met) x y ↔
      x ∈ met.map Node.id ∧ TransGen u.Imports x y := by
  have hpruned : ∀ {x y}, x ∈ met.map Node.id → ((x, y) ∈ PackageSet.edges catalog met ↔
      Pruned u.Imports (u.reducedIds met) x y) := by
    intro x y hx
    rcases List.mem_map.1 hx with ⟨p, hp, rfl⟩
    exact mem_edges_iff_pruned hnodup hedition hp
  have hfrom : ∀ {x y}, (x, y) ∈ PackageSet.edges catalog met → x ∈ met.map Node.id := by
    intro x y h
    rcases PackageSet.mem_edges_iff.1 h with ⟨p, hp, rfl, _⟩
    exact List.mem_map_of_mem hp
  -- Reduced copies were taken of nodes that can do with their copies.
  have hcopies : ∀ x ∈ u.reducedIds met,
      ¬ TransGen u.Imports x x ∧ ApproachesCycles u.Imports x := by
    rintro x ⟨p, hp, rfl, hnode⟩
    rcases (hedition p hp).resolve_left hnode with ⟨q, _, rfl, hfree, happroach⟩
    exact ⟨hfree, happroach⟩
  have hpreserves : ∀ x y, TransGen (Pruned u.Imports (u.reducedIds met)) x y ↔
      TransGen u.Imports x y :=
    (transGen_pruned_iff mem_ids_of_imports).2
      ⟨fun x hx => (hcopies x hx).1, fun x hx => (hcopies x hx).2⟩
  rw [← hpreserves x y]
  constructor
  · intro hpath
    rcases TransGen.head'_iff.1 hpath with ⟨_, hedge, _⟩
    refine ⟨hfrom hedge, TransGen.mono (fun a b h => ?_) _ _ hpath⟩
    exact (hpruned (hfrom h)).1 h
  · rintro ⟨hx, hpath⟩
    induction hpath using TransGen.head_induction_on with
    | single hedge => exact .single ((hpruned hx).2 hedge)
    | head hedge _ ih =>
        have hstep := (hpruned hx).2 hedge
        exact .head hstep (ih (hclosed _ _ hstep))

/-! ### Surveys -/

/-- What is known from nodes that were met on the way from some ids. -/
structure Survey (u : NodeUniverse catalog) (roots : List String) (met : List (Node ρ)) :
    Prop where
  -- No id was met twice.
  nodup : (met.map Node.id).Nodup
  -- Editions were met.
  edition : ∀ p ∈ met, u.IsEdition p
  -- All that the roots lead to was met, and nothing else.
  mem_iff : ∀ {y}, y ∈ met.map Node.id ↔ ∃ x ∈ roots, ReflTransGen u.Imports x y
  -- The edges between what was met lead wherever imports do.
  leads_iff : ∀ {x y}, TransGen (fun x y => (x, y) ∈ PackageSet.edges catalog met) x y ↔
    x ∈ met.map Node.id ∧ TransGen u.Imports x y

/-- A walk from editions is a survey. -/
theorem survey_closure {roots : List String} {starts : List (Node ρ)}
    (hedition : ∀ p ∈ starts, u.IsEdition p)
    (hroots : ∀ x, x ∈ starts.map Node.id ↔ x ∈ roots) :
    u.Survey roots (Node.closure catalog starts) := by
  have hexplored : Explored Node.id (Node.successors catalog) (Node.knownIds catalog starts)
      starts (Node.closure catalog starts) := explored_walk _ _ _ _
  have hreached : ∀ p ∈ Node.closure catalog starts,
      u.IsEdition p ∧ ∃ x ∈ roots, ReflTransGen u.Imports x p.id := by
    intro p hp
    rcases hexplored.reached p hp with ⟨s, hs, _, hpath⟩
    rcases (hedition s hs).stands.path hpath with ⟨hnode, hpath⟩
    refine ⟨?_, s.id, (hroots s.id).1 (List.mem_map_of_mem hs),
      ReflTransGen.mono (fun _ _ hstep => hstep.1) _ _ hpath⟩
    rcases hnode with rfl | hnode
    · exact hedition p hs
    · exact Or.inl hnode
  have hclosed : ∀ x y, (x, y) ∈ PackageSet.edges catalog (Node.closure catalog starts) →
      y ∈ (Node.closure catalog starts).map Node.id := by
    intro x y hedge
    rcases PackageSet.mem_edges_iff.1 hedge with ⟨p, hp, _, hy⟩
    rcases Node.mem_importedIds_iff.1 hy with ⟨n, hn, rfl⟩
    exact hexplored.next_met p hp n (List.mem_reverse.2 hn)
      (List.mem_append_right _ (Node.mem_ids_of_mem_imported hn))
  have hleads := fun {x y : String} =>
    transGen_edges_iff (x := x) (y := y) hexplored.nodup (fun p hp => (hreached p hp).1) hclosed
  refine ⟨hexplored.nodup, fun p hp => (hreached p hp).1, fun {y} => ⟨?_, ?_⟩, hleads⟩
  · intro hy
    rcases List.mem_map.1 hy with ⟨p, hp, rfl⟩
    exact (hreached p hp).2
  · rintro ⟨x, hx, hpath⟩
    have hmet : x ∈ (Node.closure catalog starts).map Node.id := by
      have hkey := (hroots x).2 hx
      rcases List.mem_map.1 hkey with ⟨s, hs, rfl⟩
      exact hexplored.stack_met s hs (List.mem_append_left _ hkey)
    rcases reflTransGen_iff_eq_or_transGen.1 hpath with rfl | hpath
    · exact hmet
    · rcases TransGen.tail'_iff.1 (hleads.2 ⟨hmet, hpath⟩) with ⟨z, _, hedge⟩
      exact hclosed z y hedge

end NodeUniverse

/-! ### Sets of editions -/

namespace PackageSet

open NodeUniverse

/-- A set holds editions of the nodes of a universe, under their ids. -/
def HoldsEditions (a : PackageSet ρ) (u : NodeUniverse catalog) : Prop :=
  ∀ e ∈ a.entries, u.IsEdition e.2 ∧ e.2.id = e.1

variable {u : NodeUniverse catalog} {a : PackageSet ρ}

theorem DrawnFrom.holdsEditions (ha : a.DrawnFrom u) : a.HoldsEditions u :=
  fun e he => ⟨Or.inl (ha e he).1, (ha e he).2⟩

/-- The reduction of a set in an acyclic universe holds editions. -/
theorem DrawnFrom.holdsEditions_transitive (ha : a.DrawnFrom u) (hacyclic : u.Acyclic) :
    (a.transitive catalog).HoldsEditions u := by
  intro e he
  rw [entries_transitive ha] at he
  rcases List.mem_map.1 he with ⟨m, hm, rfl⟩
  refine ⟨Or.inr ⟨m.2, (ha m hm).1, rfl, hacyclic m.2.id, ?_⟩, (ha m hm).2⟩
  exact fun y _ hcycle => absurd hcycle (hacyclic y)

theorem HoldsEditions.map_id_values (ha : a.HoldsEditions u) : a.values.map Node.id = a.keys := by
  unfold OrderedMap.values OrderedMap.keys
  rw [List.map_map]
  exact List.map_congr_left fun e he => (ha e he).2

theorem HoldsEditions.edition (ha : a.HoldsEditions u) {p : Node ρ} (hp : p ∈ a.values) :
    u.IsEdition p := by
  rcases List.mem_map.1 hp with ⟨e, he, rfl⟩
  exact (ha e he).1

/-- A set that is filed under ids is filed as its nodes are. -/
theorem HoldsEditions.ofRoots_values (ha : a.HoldsEditions u) : ofRoots a.values = a := by
  have hfiled : (a.values.map fun p => (p.id, p)) = a.entries := by
    unfold OrderedMap.values
    rw [List.map_map]
    refine (List.map_congr_left fun e he => ?_).trans (List.map_id a.entries)
    change (e.2.id, e.2) = e
    rw [(ha e he).2]
  unfold ofRoots
  rw [hfiled]
  exact OrderedMap.eq_of_entries_eq (OrderedMap.entries_ofList a.nodup)

/-- A walk from the members is a survey. -/
theorem HoldsEditions.survey (ha : a.HoldsEditions u) :
    u.Survey a.keys (a.walkMembers catalog) := by
  refine survey_closure (fun p hp => ha.edition (List.mem_reverse.1 hp)) fun x => ?_
  rw [List.map_reverse, List.mem_reverse, ha.map_id_values]

end PackageSet

end PackageAlgebra
