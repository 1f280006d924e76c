import PackageAlgebra.Package.Set
import PackageAlgebra.Proofs.Package.Walk

/-!
# Universes of Nodes

The import relation between the packages that a catalog leads to.

A catalog may hold the nodes of several settings, and then an id belongs to several
nodes. Within one setting it does not: what a loader files under an id is the node of
that id, and its imports are filed beside it. A `NodeUniverse` is such a part of a
catalog. Its import relation is one of ids, which is how queries speak of packages,
and since an id has one node there, the relation knows all that the nodes know.

Nodes that are not in the universe come up all the same. A reduced copy has the id of
a node and some of its imports. Of a walk that starts from copies it can be said
without further ado that it stays within what the nodes lead to; for that it is
enough that each copy `Stands` for a node.

## Main definitions

* `NodeUniverse`: Nodes that import each other, one for each id.
* `NodeUniverse.Imports`: One id imports another.
* `NodeUniverse.Acyclic`: No id leads back to itself.
* `NodeUniverse.ofMap`: The universe of a map that files nodes under their ids.
* `NodeUniverse.ofListing`: The universe of a listing of imports.
* `NodeUniverse.Stands`: A copy of a node, with some of its imports.
* `PackageSet.DrawnFrom`: A set of nodes of a universe.
* `NodeUniverse.listedSet`: Some of the nodes of a listing.
* `NodeUniverse.ladder`: A universe where most imports are implied.

## Theorems

* `NodeUniverse.imports_iff`: The import relation is read off a node.
* `NodeUniverse.Stands.path`: A walk from copies follows imports.
* `NodeUniverse.mem_dependencies_iff`: The dependencies of a node that a list of ids
  does not bar.
-/

namespace PackageAlgebra

open Relation

variable {ρ : Type} {catalog : Catalog ρ} {p q : Node ρ} {x y : String}

theorem Node.mem_importedIds_iff : y ∈ p.importedIds catalog ↔ ∃ q ∈ p.imported catalog, q.id = y :=
  List.mem_map

theorem Node.mem_imported_iff :
    q ∈ p.imported catalog ↔ ∃ e ∈ p.imports.entries, catalog.get? e.2 = some q := by
  simp [Node.imported, OrderedMap.values]

/-- What a node imports is known to the catalog. -/
theorem Node.mem_ids_of_mem_imported (h : q ∈ p.imported catalog) : q.id ∈ catalog.ids := by
  rcases Node.mem_imported_iff.1 h with ⟨e, _, he⟩
  exact catalog.mem_ids he

/-- Nodes that import each other, one for each id. -/
structure NodeUniverse {ρ : Type} (catalog : Catalog ρ) where
  -- The nodes.
  nodes : Set (Node ρ)
  -- The imports of a node are among them.
  imported_mem : ∀ {p q : Node ρ}, p ∈ nodes → q ∈ p.imported catalog → q ∈ nodes
  -- No two of them have one id.
  eq_of_id_eq : ∀ {p q : Node ρ}, p ∈ nodes → q ∈ nodes → p.id = q.id → p = q

namespace NodeUniverse

/-- One id imports another: its node does. -/
def Imports (u : NodeUniverse catalog) (x y : String) : Prop :=
  ∃ p ∈ u.nodes, p.id = x ∧ y ∈ p.importedIds catalog

/-- No id leads back to itself. -/
def Acyclic (u : NodeUniverse catalog) : Prop := ∀ x, ¬ TransGen u.Imports x x

/-- The universe of a map that files nodes under their ids, which they use to refer
    to each other. -/
def ofMap (m : OrderedMap String (Node String)) (hfiled : ∀ e ∈ m.entries, e.2.id = e.1) :
    NodeUniverse (Catalog.ofMap m) where
  nodes := {p | p ∈ m.values}
  imported_mem _ hq := by
    rcases Node.mem_imported_iff.1 hq with ⟨e, _, he⟩
    exact OrderedMap.mem_values_of_get? he
  eq_of_id_eq hp hq hid := by
    rcases List.mem_map.1 hp with ⟨e, he, rfl⟩
    rcases List.mem_map.1 hq with ⟨f, hf, rfl⟩
    rw [hfiled e he, hfiled f hf] at hid
    have hvalue := OrderedMap.get?_eq_some_iff.2 he
    rw [hid, OrderedMap.get?_eq_some_iff.2 hf, Option.some.injEq] at hvalue
    exact hvalue.symm

/-- A node that has nothing but an id and imports. -/
def listedNode (id : String) (imports : List String) : Node String :=
  let bare : Node String := .make id "" none .single [] false false
  { bare with imports := .ofList (imports.map fun target => (target, target)) }

/-- The nodes of a listing of ids with the ids that they import. -/
def listedNodes (listing : List (String × List String)) : OrderedMap String (Node String) :=
  .ofList (listing.map fun e => (e.1, listedNode e.1 e.2))

/-- The universe of a listing of ids with the ids that they import. -/
def ofListing (listing : List (String × List String)) :
    NodeUniverse (Catalog.ofMap (listedNodes listing)) :=
  ofMap (listedNodes listing) fun e he => by
    rcases List.mem_map.1 (OrderedMap.mem_of_mem_entries_ofList he) with ⟨_, _, rfl⟩
    rfl

/-- A copy of a node with some of its imports. -/
def Stands (u : NodeUniverse catalog) (p : Node ρ) : Prop :=
  ∃ q ∈ u.nodes, p.id = q.id ∧ ∀ n ∈ p.imported catalog, n ∈ q.imported catalog

variable {u : NodeUniverse catalog}

/-- The import relation is read off a node. -/
theorem imports_iff (hp : p ∈ u.nodes) : u.Imports p.id y ↔ y ∈ p.importedIds catalog := by
  constructor
  · rintro ⟨q, hq, hid, hy⟩
    rw [← u.eq_of_id_eq hq hp hid]
    exact hy
  · exact fun hy => ⟨p, hp, rfl, hy⟩

/-- What is imported is known to the catalog. -/
theorem mem_ids_of_imports (h : u.Imports x y) : y ∈ catalog.ids := by
  rcases h with ⟨p, _, _, hy⟩
  rcases Node.mem_importedIds_iff.1 hy with ⟨q, hq, rfl⟩
  exact Node.mem_ids_of_mem_imported hq

theorem stands_of_mem (hp : p ∈ u.nodes) : u.Stands p := ⟨p, hp, rfl, fun _ hn => hn⟩

/-- A copy imports what its node does. -/
theorem Stands.imports (hp : u.Stands p) (hq : q ∈ p.imported catalog) :
    q ∈ u.nodes ∧ u.Imports p.id q.id := by
  rcases hp with ⟨n, hn, hid, himported⟩
  exact ⟨u.imported_mem hn (himported q hq), n, hn, hid.symm,
    List.mem_map_of_mem (himported q hq)⟩

/-- A walk from a copy follows imports, and meets nodes of the universe. -/
theorem Stands.path {unseen : List String} (hp : u.Stands p)
    (hpath : ReflTransGen (fun n m => m ∈ n.successors catalog ∧ m.id ∈ unseen) p q) :
    (q = p ∨ q ∈ u.nodes) ∧ ReflTransGen (fun x y => u.Imports x y ∧ y ∈ unseen) p.id q.id := by
  induction hpath with
  | refl => exact ⟨Or.inl rfl, .refl⟩
  | @tail n m _ hstep ih =>
      have hn : u.Stands n := by
        rcases ih.1 with rfl | hn
        · exact hp
        · exact stands_of_mem hn
      rcases hn.imports (List.mem_reverse.1 hstep.1) with ⟨hnode, himports⟩
      exact ⟨Or.inr hnode, ih.2.tail ⟨himports, hstep.2⟩⟩

/-- The dependencies of a node are what a walk from its imports has met. -/
theorem explored_dependencies (catalog : Catalog ρ) (p : Node ρ) (visited : List String) :
    ∃ met, p.dependencies catalog visited = met.map Node.id ∧
      Explored Node.id (Node.successors catalog) (catalog.ids.filter (· ∉ visited))
        (p.successors catalog) met :=
  ⟨_, rfl, explored_walk _ _ _ _⟩

/-- The dependencies of a node are the ids to which its imports lead past the ids of
    a list. -/
theorem mem_dependencies_iff {visited : List String}
    (hp : ∀ n ∈ p.imported catalog, n ∈ u.nodes) :
    y ∈ p.dependencies catalog visited ↔ ∃ x ∈ p.importedIds catalog, x ∉ visited ∧
      ReflTransGen (fun a b => u.Imports a b ∧ b ∉ visited) x y := by
  rcases explored_dependencies catalog p visited with ⟨met, hmet, hexplored⟩
  rw [hmet]
  have hunseen : ∀ {x : String}, x ∈ catalog.ids.filter (· ∉ visited) ↔
      x ∈ catalog.ids ∧ x ∉ visited := by
    intro x
    rw [List.mem_filter, decide_eq_true_eq]
  have hstart : ∀ {n : Node ρ}, n ∈ p.successors catalog → n ∈ u.nodes :=
    fun hn => hp _ (List.mem_reverse.1 hn)
  constructor
  · intro hy
    rcases List.mem_map.1 hy with ⟨m, hm, rfl⟩
    rcases hexplored.reached m hm with ⟨s, hs, hkey, hpath⟩
    refine ⟨s.id, List.mem_map_of_mem (List.mem_reverse.1 hs), (hunseen.1 hkey).2, ?_⟩
    exact ReflTransGen.mono (fun _ _ hstep => hstep.imp_right fun hb => (hunseen.1 hb).2) _ _
      ((stands_of_mem (hstart hs)).path hpath).2
  · rintro ⟨x, hx, hnew, hpath⟩
    rcases Node.mem_importedIds_iff.1 hx with ⟨n, hn, rfl⟩
    induction hpath with
    | refl =>
        exact hexplored.stack_met n (List.mem_reverse.2 hn)
          (hunseen.2 ⟨Node.mem_ids_of_mem_imported hn, hnew⟩)
    | tail _ hstep ih =>
        -- The node that was met under the last id is the one that imports the next.
        rcases List.mem_map.1 ih with ⟨m, hm, rfl⟩
        rcases hexplored.reached m hm with ⟨s, hs, _, hpath⟩
        have hnode : m ∈ u.nodes := by
          rcases ((stands_of_mem (hstart hs)).path hpath).1 with rfl | hnode
          · exact hstart hs
          · exact hnode
        rcases Node.mem_importedIds_iff.1 ((imports_iff hnode).1 hstep.1) with ⟨c, hc, rfl⟩
        exact hexplored.next_met m hm c (List.mem_reverse.2 hc)
          (hunseen.2 ⟨Node.mem_ids_of_mem_imported hc, hstep.2⟩)

end NodeUniverse

/-- A set holds nodes of a universe, under their ids. -/
def PackageSet.DrawnFrom (a : PackageSet ρ) (u : NodeUniverse catalog) : Prop :=
  ∀ e ∈ a.entries, e.2 ∈ u.nodes ∧ e.2.id = e.1

theorem PackageSet.DrawnFrom.node {a : PackageSet ρ} {u : NodeUniverse catalog}
    (ha : a.DrawnFrom u) (hp : a.get? x = some p) : p ∈ u.nodes ∧ p.id = x :=
  ha (x, p) (OrderedMap.get?_eq_some_iff.1 hp)

/-! ### Listings -/

namespace NodeUniverse

/-- Some of the nodes of a listing, as a set. -/
def listedSet (listing : List (String × List String)) (ids : List String) : PackageSet String :=
  (listedNodes listing).filter fun id _ => ids.contains id

theorem drawnFrom_listedSet (listing : List (String × List String)) (ids : List String) :
    (listedSet listing ids).DrawnFrom (ofListing listing) := by
  intro e he
  have hentry : e ∈ (listedNodes listing).entries := (List.mem_filter.1 he).1
  rcases List.mem_map.1 (OrderedMap.mem_of_mem_entries_ofList hentry) with ⟨_, _, rfl⟩
  exact ⟨List.mem_map_of_mem hentry, rfl⟩

/-- What a listing says is looked up. -/
instance (listing : List (String × List String)) : DecidableRel (ofListing listing).Imports :=
  fun x y => inferInstanceAs (Decidable (∃ p ∈ (listedNodes listing).values,
    p.id = x ∧ y ∈ p.importedIds (Catalog.ofMap (listedNodes listing))))

/-- A path goes upward if every import does. -/
theorem lt_of_path {u : NodeUniverse catalog} (hup : ∀ x y, u.Imports x y → x < y)
    (hpath : TransGen u.Imports x y) : x < y := by
  induction hpath with
  | single himports => exact hup _ _ himports
  | tail _ himports ih => exact String.lt_trans ih (hup _ _ himports)

/-- A universe is acyclic if every import goes upward. -/
theorem acyclic_of_lt {u : NodeUniverse catalog} (hup : ∀ x y, u.Imports x y → x < y) :
    u.Acyclic :=
  fun x hcycle => String.lt_irrefl x (lt_of_path hup hcycle)

/-- Four nodes, three of which import some of those that follow. -/
def ladder : List (String × List String) :=
  [("A", ["B", "C", "D"]), ("B", ["C"]), ("C", ["D"]), ("D", [])]

theorem acyclic_ladder : (ofListing ladder).Acyclic := by
  have hup : ∀ p ∈ (listedNodes ladder).values,
      ∀ y ∈ p.importedIds (Catalog.ofMap (listedNodes ladder)), p.id < y := by decide
  refine acyclic_of_lt ?_
  rintro x y ⟨p, hp, rfl, hy⟩
  exact hup p hp y hy

end NodeUniverse

end PackageAlgebra
