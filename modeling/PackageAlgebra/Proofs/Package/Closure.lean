import PackageAlgebra.Calculator.Functions
import PackageAlgebra.Proofs.Package.Answers

/-!
# Closures

What a set becomes together with everything that it imports.

Within one universe an id has one node, so a set of its nodes is told by its ids, and all
that can be said of such sets can be said of their ids. The closure of a set has the ids that
its members lead to. That makes it the least set that contains the set and is closed under
imports, and what is least in this sense is one and the same set, however the walk that collects
it has come about. Neither the order of the members nor that of the imports of a node is left in
it.

The walk that collects a closure may as well be many walks, one for each member, which turn back
at whatever an earlier one has collected. What an earlier one has collected is fully expanded by
then, so nothing is lost behind it.

The closure is also what becomes of the set if the direct imports of its members are added again
and again. Each round goes one import further, no round leaves the closure, and since the
closure is finite, one of them reaches it. After that the rounds add nothing.

## Main definitions

* `PackageSet.ClosedIn`: What the members import are members.
* `PackageSet.IsClosureOf`: The least closed set that contains a set.
* `PackageSet.gather`: A set together with what a walk from a node meets outside of it.
* `PackageSet.widen`: A set together with the direct imports of its members.

## Theorems

* `PackageSet.DrawnFrom.subset_iff`, `PackageSet.DrawnFrom.perm_iff`: Sets of one universe are
  told by their ids.
* `PackageSet.DrawnFrom.mem_keys_closure_iff`: The ids of a closure.
* `PackageSet.ofClosure_eq_foldl_gather`: A closure is collected by walks from one node each.
* `PackageSet.DrawnFrom.exists_subset_iterate_widen`: Widening reaches what is led to.
* `ofClosure_least_closed`: The closure of a set.
-/

namespace PackageAlgebra

open Relation NodeUniverse

variable {ρ : Type} {catalog : Catalog ρ} {u : NodeUniverse catalog} {a b c : PackageSet ρ}
  {roots : List (Node ρ)} {x y : String}

namespace PackageSet

/-! ### Sets of one universe -/

theorem nodup_entries (a : PackageSet ρ) : a.entries.Nodup := .of_map Prod.fst a.nodup

/-- A node of the universe is a member if its id is. -/
theorem DrawnFrom.mem_entries (ha : a.DrawnFrom u) (hb : b.DrawnFrom u) {e : String × Node ρ}
    (he : e ∈ a.entries) (hkey : e.1 ∈ b.keys) : e ∈ b.entries := by
  rcases List.mem_map.1 hkey with ⟨f, hf, hid⟩
  have hnode : f.2 = e.2 := by
    refine u.eq_of_id_eq (hb f hf).1 (ha e he).1 ?_
    rw [(hb f hf).2, (ha e he).2, hid]
  rw [← Prod.ext hid hnode]
  exact hf

/-- Of two sets of one universe, one is contained in the other if its ids are. -/
theorem DrawnFrom.subset_iff (ha : a.DrawnFrom u) (hb : b.DrawnFrom u) :
    a.entries ⊆ b.entries ↔ ∀ x ∈ a.keys, x ∈ b.keys := by
  constructor
  · intro hsub x hx
    rcases List.mem_map.1 hx with ⟨e, he, rfl⟩
    exact List.mem_map_of_mem (hsub he)
  · exact fun hkeys e he => ha.mem_entries hb he (hkeys e.1 (List.mem_map_of_mem he))

/-- Two sets of one universe are the same but for the order if their ids are. -/
theorem DrawnFrom.perm_iff (ha : a.DrawnFrom u) (hb : b.DrawnFrom u) :
    a.entries.Perm b.entries ↔ ∀ x, x ∈ a.keys ↔ x ∈ b.keys := by
  rw [List.perm_ext_iff_of_nodup a.nodup_entries b.nodup_entries]
  constructor
  · intro hsame x
    exact ⟨(ha.subset_iff hb).1 (fun e he => (hsame e).1 he) x,
      (hb.subset_iff ha).1 (fun e he => (hsame e).2 he) x⟩
  · intro hkeys e
    exact ⟨fun he => (ha.subset_iff hb).2 (fun x hx => (hkeys x).1 hx) he,
      fun he => (hb.subset_iff ha).2 (fun x hx => (hkeys x).2 hx) he⟩

/-- A part of a set of a universe is one. -/
theorem DrawnFrom.of_subset (ha : a.DrawnFrom u) (h : b.entries ⊆ a.entries) : b.DrawnFrom u :=
  fun e he => ha e (h he)

theorem DrawnFrom.mem_nodes (ha : a.DrawnFrom u) : ∀ p ∈ a.values, p ∈ u.nodes := by
  intro p hp
  rcases List.mem_map.1 hp with ⟨e, he, rfl⟩
  exact (ha e he).1

/-- The value of an id in a union is the first one. -/
theorem get?_union (a b : PackageSet ρ) (x : String) :
    (a.union b).get? x = (a.get? x).or (b.get? x) := by
  have hone : ∀ (m : PackageSet ρ) (e : String × Node ρ),
      (m.insertIfNew e.1 e.2).get? x = (m.get? x).or (if e.1 = x then some e.2 else none) := by
    intro m e
    have hput := OrderedMap.get?_foldl_insertIfNew (fun _ => e.2) [e.1] m x
    simp only [List.foldl_cons, List.foldl_nil, List.mem_singleton, eq_comm (a := x)] at hput
    exact hput
  unfold union OrderedMap.get?
  change (b.entries.foldl (fun m e => m.insertIfNew e.1 e.2) a).get? x = (a.get? x).or _
  generalize b.entries = entries
  induction entries generalizing a with
  | nil => exact (Option.or_none).symm
  | cons e rest ih =>
      rw [List.foldl_cons, ih, hone, Option.or_assoc, List.find?_cons]
      by_cases hkey : e.1 = x
      · rw [if_pos hkey, decide_eq_true hkey]
        rfl
      · rw [if_neg hkey, decide_eq_false hkey, Option.none_or]

theorem mem_keys_union : x ∈ (a.union b).keys ↔ x ∈ a.keys ∨ x ∈ b.keys := by
  simp only [← OrderedMap.contains_iff_mem_keys, OrderedMap.contains_eq_isSome, get?_union,
    Option.isSome_or, Bool.or_eq_true]

theorem DrawnFrom.union (ha : a.DrawnFrom u) (hb : b.DrawnFrom u) : (a.union b).DrawnFrom u := by
  intro e he
  have hget := OrderedMap.get?_eq_some_iff.2 he
  rw [get?_union, Option.or_eq_some_iff] at hget
  rcases hget with hget | ⟨-, hget⟩
  · exact ha e (OrderedMap.get?_eq_some_iff.1 hget)
  · exact hb e (OrderedMap.get?_eq_some_iff.1 hget)

/-! ### Closed sets -/

/-- What the members import are members. -/
def ClosedIn (a : PackageSet ρ) (u : NodeUniverse catalog) : Prop :=
  ∀ x ∈ a.keys, ∀ y, u.Imports x y → y ∈ a.keys

/-- The least set of a universe that contains a set and is closed under imports. -/
structure IsClosureOf (c a : PackageSet ρ) (u : NodeUniverse catalog) : Prop where
  -- It holds nodes of the universe, under their ids.
  drawn : c.DrawnFrom u
  -- It contains the set, with the same nodes.
  contains : a.entries ⊆ c.entries
  -- It is closed.
  closed : c.ClosedIn u
  -- Every closed set that contains the set contains it.
  least : ∀ b : PackageSet ρ, b.DrawnFrom u → a.entries ⊆ b.entries → b.ClosedIn u →
    c.entries ⊆ b.entries

/-- Paths do not leave a closed set. -/
theorem ClosedIn.mem_keys (h : a.ClosedIn u) (hx : x ∈ a.keys)
    (hpath : ReflTransGen u.Imports x y) : y ∈ a.keys := by
  induction hpath with
  | refl => exact hx
  | tail _ himports ih => exact h _ ih _ himports

/-- A walk from nodes of a universe meets nodes of it. -/
theorem DrawnFrom.ofClosure (hroots : ∀ p ∈ roots, p ∈ u.nodes) :
    (PackageSet.ofClosure catalog roots).DrawnFrom u := by
  intro e he
  rcases List.mem_map.1 (OrderedMap.mem_of_mem_entries_ofList he) with ⟨p, hp, rfl⟩
  refine ⟨?_, rfl⟩
  rcases (explored_walk _ _ _ _).reached p hp with ⟨s, hs, -, hpath⟩
  rcases ((stands_of_mem (hroots s hs)).path hpath).1 with rfl | hnode
  · exact hroots p hs
  · exact hnode

theorem DrawnFrom.closure (ha : a.DrawnFrom u) :
    (PackageSet.ofClosure catalog a.values).DrawnFrom u := .ofClosure ha.mem_nodes

/-- The ids of the closure of a set are those to which its members lead. -/
theorem DrawnFrom.mem_keys_closure_iff (ha : a.DrawnFrom u) :
    y ∈ (PackageSet.ofClosure catalog a.values).keys ↔
      ∃ x ∈ a.keys, ReflTransGen u.Imports x y := by
  rw [mem_keys_ofClosure_iff fun p hp => Or.inl (ha.mem_nodes p hp),
    ha.holdsEditions.map_id_values]

/-- The closure of a set is the least closed set that contains it. -/
theorem DrawnFrom.isClosureOf (ha : a.DrawnFrom u) :
    (PackageSet.ofClosure catalog a.values).IsClosureOf a u where
  drawn := ha.closure
  contains := (ha.subset_iff ha.closure).2 fun x hx => ha.mem_keys_closure_iff.2 ⟨x, hx, .refl⟩
  closed x hx y himports := by
    rcases ha.mem_keys_closure_iff.1 hx with ⟨z, hz, hpath⟩
    exact ha.mem_keys_closure_iff.2 ⟨z, hz, hpath.tail himports⟩
  least b hb hsub hclosed := by
    refine (ha.closure.subset_iff hb).2 fun y hy => ?_
    rcases ha.mem_keys_closure_iff.1 hy with ⟨x, hx, hpath⟩
    exact hclosed.mem_keys ((ha.subset_iff hb).1 hsub x hx) hpath

/-- A greater set has a greater closure. -/
theorem DrawnFrom.closure_mono (hb : b.DrawnFrom u) (h : a.entries ⊆ b.entries) :
    (PackageSet.ofClosure catalog a.values).entries ⊆
      (PackageSet.ofClosure catalog b.values).entries :=
  (hb.of_subset h).isClosureOf.least _ hb.closure
    (List.Subset.trans h hb.isClosureOf.contains) hb.isClosureOf.closed

/-- A closure has the same ids in any two universes with one import relation. -/
theorem DrawnFrom.perm_keys_closure {ρ' : Type} {catalog' : Catalog ρ'}
    {u' : NodeUniverse catalog'} {b : PackageSet ρ'} (ha : a.DrawnFrom u) (hb : b.DrawnFrom u')
    (hkeys : ∀ x, x ∈ b.keys ↔ x ∈ a.keys) (himports : ∀ x y, u'.Imports x y ↔ u.Imports x y) :
    (PackageSet.ofClosure catalog' b.values).keys.Perm
      (PackageSet.ofClosure catalog a.values).keys := by
  have hrelation : u'.Imports = u.Imports := by
    ext x y
    exact himports x y
  refine (List.perm_ext_iff_of_nodup (OrderedMap.nodup _) (OrderedMap.nodup _)).2 fun x => ?_
  change x ∈ (PackageSet.ofClosure catalog' b.values).keys ↔
    x ∈ (PackageSet.ofClosure catalog a.values).keys
  rw [hb.mem_keys_closure_iff, ha.mem_keys_closure_iff, hrelation]
  simp only [hkeys]

/-- The closure of a closure has the same members. -/
theorem DrawnFrom.closure_closure_perm (ha : a.DrawnFrom u) :
    (PackageSet.ofClosure catalog (PackageSet.ofClosure catalog a.values).values).entries.Perm
      (PackageSet.ofClosure catalog a.values).entries := by
  refine (ha.closure.closure.perm_iff ha.closure).2 fun x => ?_
  constructor
  · intro hx
    rcases ha.closure.mem_keys_closure_iff.1 hx with ⟨y, hy, hpath⟩
    exact ha.isClosureOf.closed.mem_keys hy hpath
  · exact fun hx => ha.closure.mem_keys_closure_iff.2 ⟨x, hx, .refl⟩

/-! ### Walks from single nodes -/

/-- A set together with what a walk from a node meets that turns back at the members. -/
def gather (catalog : Catalog ρ) (a : PackageSet ρ) (p : Node ρ) : PackageSet ρ :=
  (walk Node.id (Node.successors catalog) ((Node.knownIds catalog [p]).filter (· ∉ a.keys))
    [p]).foldl (fun m q => m.insert q.id q) a

theorem mem_keys_foldl_insert {nodes : List (Node ρ)} :
    x ∈ (nodes.foldl (fun m q => m.insert q.id q) a).keys ↔ x ∈ a.keys ∨ x ∈ nodes.map Node.id := by
  induction nodes generalizing a with
  | nil => simp
  | cons p rest ih =>
      rw [List.foldl_cons, ih, OrderedMap.mem_keys_insert, List.map_cons, List.mem_cons, or_assoc,
        or_left_comm]

/-- All that a walk from some nodes can meet is known. -/
theorem mem_knownIds (nodes : List (Node ρ)) {p : Node ρ}
    (h : p ∈ nodes ∨ ∃ q, p ∈ Node.successors catalog q) : p.id ∈ Node.knownIds catalog nodes := by
  rcases h with hp | ⟨q, hp⟩
  · exact List.mem_append_left _ (List.mem_map_of_mem hp)
  · exact List.mem_append_right _ (Node.mem_ids_of_mem_imported (List.mem_reverse.1 hp))

/-- Walks from one node each collect what one walk from all of them meets. -/
theorem foldl_gather (catalog : Catalog ρ) (roots : List (Node ρ)) (a : PackageSet ρ) :
    roots.foldl (gather catalog) a =
      (walk Node.id (Node.successors catalog) ((Node.knownIds catalog roots).filter (· ∉ a.keys))
        roots).foldl (fun m q => m.insert q.id q) a := by
  induction roots generalizing a with
  | nil => rw [List.foldl_nil, walk, List.foldl_nil]
  | cons p rest ih =>
      -- Both walks may meet whatever is not a member yet.
      have hfirst : walk Node.id (Node.successors catalog)
          ((Node.knownIds catalog (p :: rest)).filter (· ∉ a.keys)) [p] =
          walk Node.id (Node.successors catalog)
            ((Node.knownIds catalog [p]).filter (· ∉ a.keys)) [p] := by
        refine walk_congr fun q hq => ?_
        have hall := mem_knownIds (p :: rest)
          (hq.imp_left fun hq => List.mem_singleton.1 hq ▸ List.mem_cons_self)
        simp only [List.mem_filter, mem_knownIds [p] hq, hall]
      have hsplit : walk Node.id (Node.successors catalog)
          ((Node.knownIds catalog (p :: rest)).filter (· ∉ a.keys)) ([p] ++ rest) = _ :=
        walk_append rest
      rw [hfirst, List.singleton_append] at hsplit
      rw [List.foldl_cons, ih, hsplit, List.foldl_append]
      refine congrArg (List.foldl _ _) (walk_congr fun q hq => ?_)
      have hall := mem_knownIds (p :: rest) (hq.imp_left (List.mem_cons_of_mem p))
      simp only [List.mem_filter, mem_knownIds rest hq, hall, gather, mem_keys_foldl_insert,
        decide_eq_true_eq, not_or, true_and]

/-- A closure is collected by walks from its roots, each of which turns back at what is there. -/
theorem ofClosure_eq_foldl_gather (catalog : Catalog ρ) (roots : List (Node ρ)) :
    PackageSet.ofClosure catalog roots = roots.foldl (gather catalog) .empty := by
  have hknown : (Node.knownIds catalog roots).filter (· ∉ (OrderedMap.empty : PackageSet ρ).keys) =
      Node.knownIds catalog roots :=
    List.filter_eq_self.2 fun _ _ => decide_eq_true List.not_mem_nil
  rw [foldl_gather, hknown]
  exact List.foldl_map

/-! ### Rounds of direct imports -/

/-- A set together with what its members import. -/
def widen (catalog : Catalog ρ) (a : PackageSet ρ) : PackageSet ρ :=
  Selection.imports.apply catalog .add a

theorem mem_keys_directDependencies_iff (ha : a.DrawnFrom u) :
    y ∈ (a.directDependencies catalog).keys ↔ y ∉ a.keys ∧ ∃ x ∈ a.keys, u.Imports x y := by
  unfold directDependencies
  rw [OrderedMap.mem_keys_ofList, List.mem_map]
  constructor
  · rintro ⟨e, he, rfl⟩
    rcases List.mem_filterMap.1 he with ⟨q, hq, hnew⟩
    rw [Option.ite_none_left_eq_some, Option.some.injEq] at hnew
    rcases hnew with ⟨hnew, rfl⟩
    rcases List.mem_flatMap.1 hq with ⟨p, hp, himported⟩
    rw [OrderedMap.contains_iff_mem_keys] at hnew
    have hkey : p.id ∈ a.keys := ha.holdsEditions.map_id_values ▸ List.mem_map_of_mem hp
    exact ⟨hnew, p.id, hkey, (imports_iff (ha.mem_nodes p hp)).2 (List.mem_map_of_mem himported)⟩
  · rintro ⟨hnew, x, hx, himports⟩
    rcases OrderedMap.mem_keys_iff.1 hx with ⟨p, hget⟩
    rcases ha.node hget with ⟨hnode, rfl⟩
    rcases Node.mem_importedIds_iff.1 ((imports_iff hnode).1 himports) with ⟨q, hq, rfl⟩
    refine ⟨(q.id, q), List.mem_filterMap.2 ⟨q, ?_, ?_⟩, rfl⟩
    · exact List.mem_flatMap.2 ⟨p, OrderedMap.mem_values_of_get? hget, hq⟩
    · rw [if_neg (mt OrderedMap.contains_iff_mem_keys.1 hnew)]

theorem DrawnFrom.directDependencies (ha : a.DrawnFrom u) :
    (a.directDependencies catalog).DrawnFrom u := by
  intro e he
  rcases List.mem_filterMap.1 (OrderedMap.mem_of_mem_entries_ofList he) with ⟨q, hq, hnew⟩
  rw [Option.ite_none_left_eq_some, Option.some.injEq] at hnew
  rcases List.mem_flatMap.1 hq with ⟨p, hp, himported⟩
  rw [← hnew.2]
  exact ⟨u.imported_mem (ha.mem_nodes p hp) himported, rfl⟩

theorem DrawnFrom.widen (ha : a.DrawnFrom u) : (a.widen catalog).DrawnFrom u :=
  ha.union ha.directDependencies

/-- One round goes one import further. -/
theorem DrawnFrom.mem_keys_widen_iff (ha : a.DrawnFrom u) :
    y ∈ (a.widen catalog).keys ↔ y ∈ a.keys ∨ ∃ x ∈ a.keys, u.Imports x y := by
  change y ∈ (a.union (a.directDependencies catalog)).keys ↔ _
  rw [mem_keys_union, mem_keys_directDependencies_iff ha]
  by_cases hy : y ∈ a.keys
  · simp only [hy, true_or]
  · simp only [hy, not_false_eq_true, true_and]

/-- Nothing is added to a closed set. -/
theorem DrawnFrom.widen_eq_self (ha : a.DrawnFrom u) (h : a.ClosedIn u) :
    a.widen catalog = a := by
  have hnone : (a.directDependencies catalog).keys = [] := by
    refine List.eq_nil_iff_forall_not_mem.2 fun y hy => ?_
    rcases (mem_keys_directDependencies_iff ha).1 hy with ⟨hnew, x, hx, himports⟩
    exact hnew (h x hx y himports)
  change a.union (a.directDependencies catalog) = a
  unfold PackageSet.union
  rw [List.map_eq_nil_iff.1 hnone, List.foldl_nil]

theorem DrawnFrom.iterate_widen (ha : a.DrawnFrom u) (n : Nat) :
    ((PackageSet.widen catalog)^[n] a).DrawnFrom u := by
  induction n with
  | zero => exact ha
  | succ n ih =>
      rw [Function.iterate_succ_apply']
      exact ih.widen

/-- The rounds do not leave the closure. -/
theorem DrawnFrom.iterate_widen_subset (ha : a.DrawnFrom u) (n : Nat) :
    ((PackageSet.widen catalog)^[n] a).entries ⊆
      (PackageSet.ofClosure catalog a.values).entries := by
  induction n with
  | zero => exact ha.isClosureOf.contains
  | succ n ih =>
      rw [Function.iterate_succ_apply']
      have hround := ha.iterate_widen n
      rw [hround.subset_iff ha.closure] at ih
      refine (hround.widen.subset_iff ha.closure).2 fun y hy => ?_
      rcases hround.mem_keys_widen_iff.1 hy with hy | ⟨x, hx, himports⟩
      · exact ih y hy
      · exact ha.isClosureOf.closed x (ih x hx) y himports

theorem DrawnFrom.mem_keys_iterate_widen_of_le (ha : a.DrawnFrom u) {n m : Nat} (hle : n ≤ m)
    (hx : x ∈ ((PackageSet.widen catalog)^[n] a).keys) :
    x ∈ ((PackageSet.widen catalog)^[m] a).keys := by
  induction hle with
  | refl => exact hx
  | @step m _ ih =>
      rw [Function.iterate_succ_apply']
      exact (ha.iterate_widen m).mem_keys_widen_iff.2 (Or.inl ih)

/-- Each id that members lead to is reached by one of the rounds. -/
theorem DrawnFrom.exists_mem_keys_iterate_widen (ha : a.DrawnFrom u) (hx : x ∈ a.keys)
    (hpath : ReflTransGen u.Imports x y) :
    ∃ n, y ∈ ((PackageSet.widen catalog)^[n] a).keys := by
  induction hpath with
  | refl => exact ⟨0, hx⟩
  | @tail y z _ himports ih =>
      rcases ih with ⟨n, hy⟩
      refine ⟨n + 1, ?_⟩
      rw [Function.iterate_succ_apply']
      exact (ha.iterate_widen n).mem_keys_widen_iff.2 (Or.inr ⟨y, hy, himports⟩)

/-- One of the rounds reaches all of finitely many ids that members lead to. -/
theorem DrawnFrom.exists_subset_iterate_widen (ha : a.DrawnFrom u) (ids : List String)
    (hids : ∀ y ∈ ids, ∃ x ∈ a.keys, ReflTransGen u.Imports x y) :
    ∃ n, ∀ y ∈ ids, y ∈ ((PackageSet.widen catalog)^[n] a).keys := by
  induction ids with
  | nil => exact ⟨0, fun y hy => absurd hy List.not_mem_nil⟩
  | cons y rest ih =>
      rw [List.forall_mem_cons] at hids
      rcases ih hids.2 with ⟨n, hrest⟩
      rcases hids.1 with ⟨x, hx, hpath⟩
      rcases ha.exists_mem_keys_iterate_widen hx hpath with ⟨m, hy⟩
      -- The later one of the two rounds reaches all of them.
      refine ⟨max n m, List.forall_mem_cons.2 ⟨?_, fun z hz => ?_⟩⟩
      · exact ha.mem_keys_iterate_widen_of_le (le_max_right n m) hy
      · exact ha.mem_keys_iterate_widen_of_le (le_max_left n m) (hrest z hz)

/-- After some round nothing is added any more, and the closure has been reached. -/
theorem DrawnFrom.exists_iterate_widen_perm (ha : a.DrawnFrom u) :
    ∃ n, (∀ m, n ≤ m → (PackageSet.widen catalog)^[m] a = (PackageSet.widen catalog)^[n] a) ∧
      ((PackageSet.widen catalog)^[n] a).entries.Perm
        (PackageSet.ofClosure catalog a.values).entries := by
  have hround := fun n => ha.iterate_widen n
  rcases ha.exists_subset_iterate_widen (PackageSet.ofClosure catalog a.values).keys
    (fun y hy => ha.mem_keys_closure_iff.1 hy) with ⟨n, hreached⟩
  have hkeys : ∀ x, x ∈ ((PackageSet.widen catalog)^[n] a).keys ↔
      x ∈ (PackageSet.ofClosure catalog a.values).keys := fun x =>
    ⟨((hround n).subset_iff ha.closure).1 (ha.iterate_widen_subset n) x, hreached x⟩
  refine ⟨n, fun m hle => ?_, ((hround n).perm_iff ha.closure).2 hkeys⟩
  have hclosed : ((PackageSet.widen catalog)^[n] a).ClosedIn u := by
    intro x hx y himports
    exact (hkeys y).2 (ha.isClosureOf.closed x ((hkeys x).1 hx) y himports)
  induction hle with
  | refl => rfl
  | step _ ih => rw [Function.iterate_succ_apply', ih, (hround n).widen_eq_self hclosed]

end PackageSet

open PackageSet

/-- The closure of a set is the least set of its universe that contains it and is closed under
    imports. It may be collected member by member, and is the same whatever the order of the
    members and of the imports; it is where the rounds come to an end in which the direct imports
    of all members are added; and a greater set has a greater closure, while a closure is its
    own. -/
theorem ofClosure_least_closed (ha : a.DrawnFrom u) :
    (ofClosure catalog a.values).IsClosureOf a u ∧
      ofClosure catalog a.values = a.values.foldl (gather catalog) .empty ∧
      (∀ b : PackageSet ρ, b.entries.Perm a.entries →
        (ofClosure catalog b.values).entries.Perm (ofClosure catalog a.values).entries) ∧
      (∀ {ρ' : Type} {catalog' : Catalog ρ'} (u' : NodeUniverse catalog') (b : PackageSet ρ'),
        b.DrawnFrom u' → (∀ x, x ∈ b.keys ↔ x ∈ a.keys) →
        (∀ x y, u'.Imports x y ↔ u.Imports x y) →
        (ofClosure catalog' b.values).keys.Perm (ofClosure catalog a.values).keys) ∧
      (∃ n, (∀ m, n ≤ m →
          (Selection.imports.apply catalog .add)^[m] a =
            (Selection.imports.apply catalog .add)^[n] a) ∧
        ((Selection.imports.apply catalog .add)^[n] a).entries.Perm
          (ofClosure catalog a.values).entries) ∧
      (∀ b : PackageSet ρ, b.DrawnFrom u → a.entries ⊆ b.entries →
        (ofClosure catalog a.values).entries ⊆ (ofClosure catalog b.values).entries) ∧
      (ofClosure catalog (ofClosure catalog a.values).values).entries.Perm
        (ofClosure catalog a.values).entries := by
  refine ⟨ha.isClosureOf, ofClosure_eq_foldl_gather catalog a.values, fun b hperm => ?_,
    fun u' b hb hkeys himports => ha.perm_keys_closure hb hkeys himports,
    ha.exists_iterate_widen_perm, fun b hb hsub => hb.closure_mono hsub, ha.closure_closure_perm⟩
  have hb : b.DrawnFrom u := ha.of_subset hperm.subset
  exact (hb.closure.perm_iff ha.closure).2 fun x =>
    (ha.perm_keys_closure hb ((hb.perm_iff ha).1 hperm) fun _ _ => Iff.rfl).mem_iff

/-- A node before a loop of two, and a node that imports it. -/
def knot : List (String × List String) :=
  [("A", ["B"]), ("B", ["C"]), ("C", ["B"]), ("D", ["A"])]

/-- What the first node of the knot leads to is the loop, but not the node that imports it. -/
theorem ofClosure_least_closed_knot :
    (listedSet knot ["A"]).DrawnFrom (ofListing knot) ∧
      "C" ∈ (ofClosure (Catalog.ofMap (listedNodes knot)) (listedSet knot ["A"]).values).keys ∧
      "D" ∉ (ofClosure (Catalog.ofMap (listedNodes knot)) (listedSet knot ["A"]).values).keys := by
  have hdrawn := drawnFrom_listedSet knot ["A"]
  have hloop := drawnFrom_listedSet knot ["A", "B", "C"]
  have hclosure := (ofClosure_least_closed hdrawn).1
  have hcontained : (listedSet knot ["A"]).entries ⊆ (listedSet knot ["A", "B", "C"]).entries :=
    (hdrawn.subset_iff hloop).2 (by decide)
  have hclosed : (listedSet knot ["A", "B", "C"]).ClosedIn (ofListing knot) := by
    have hlisted : ∀ p ∈ (listedNodes knot).values, p.id ∈ (listedSet knot ["A", "B", "C"]).keys →
        ∀ y ∈ p.importedIds (Catalog.ofMap (listedNodes knot)),
          y ∈ (listedSet knot ["A", "B", "C"]).keys := by decide
    rintro x hx y ⟨p, hp, rfl, hy⟩
    exact hlisted p hp hx y hy
  have hAB : (ofListing knot).Imports "A" "B" := by decide
  have hBC : (ofListing knot).Imports "B" "C" := by decide
  refine ⟨hdrawn, ?_, fun hD => ?_⟩
  · exact hclosure.closed "B" (hclosure.closed "A"
      ((hdrawn.subset_iff hclosure.drawn).1 hclosure.contains "A" (by decide)) "B" hAB) "C" hBC
  · have hleast := hclosure.least _ hloop hcontained hclosed
    exact absurd ((hclosure.drawn.subset_iff hloop).1 hleast "D" hD) (by decide)

end PackageAlgebra
