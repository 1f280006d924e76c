import PackageAlgebra.Proofs.Package.Closure

/-!
# Packages of the Same Modules

A set together with all it leads to within its modules.

A package belongs to a module or to none. Of the packages that a set leads to, those are added
whose module is that of a member, and it does not matter what lies on the way to them. A path may
leave the modules of the set and come back, for what is walked is the closure, and the modules are
only asked for of what the walk has met.

What is added brings no modules that were not there, and leads nowhere the set did not lead. So
doing it again adds nothing; the nodes that are written then are those that are there, and writing
them changes neither the members nor their order.

## Theorems

* `OrderedMap.insert_eq_self`: Writing what is there changes nothing.
* `PackageSet.DrawnFrom.mem_entries_iff`: The members of a set of a universe.
* `PackageSet.DrawnFrom.mem_moduleDependencies_iff`: What a set becomes within its modules.
* `PackageSet.DrawnFrom.moduleDependencies_moduleDependencies`: Once is enough.
-/

namespace PackageAlgebra

/-- Writing a pair into a list that has it changes nothing. -/
theorem put_of_mem {κ α : Type} [DecidableEq κ] {k : κ} {a : α} {l : List (κ × α)}
    (hnodup : (l.map Prod.fst).Nodup) (h : (k, a) ∈ l) : put k a l = l := by
  induction l with
  | nil => exact absurd h List.not_mem_nil
  | cons e rest ih =>
      rw [List.map_cons, List.nodup_cons] at hnodup
      rw [put]
      by_cases hkey : e.1 = k
      · rw [if_pos hkey]
        rcases List.mem_cons.1 h with rfl | hrest
        · rfl
        · exact absurd (hkey ▸ List.mem_map_of_mem hrest) hnodup.1
      · rw [if_neg hkey]
        rcases List.mem_cons.1 h with rfl | hrest
        · exact absurd rfl hkey
        · rw [ih hnodup.2 hrest]

/-- Writing what is there changes nothing. -/
theorem OrderedMap.insert_eq_self {κ α : Type} [DecidableEq κ] {m : OrderedMap κ α} {k : κ} {a : α}
    (h : m.get? k = some a) : m.insert k a = m :=
  OrderedMap.eq_of_entries_eq (put_of_mem m.nodup (OrderedMap.get?_eq_some_iff.1 h))

open Relation NodeUniverse

variable {ρ : Type} {catalog : Catalog ρ} {u : NodeUniverse catalog} {a : PackageSet ρ}
  {nodes : List (Node ρ)} {x : String}

namespace PackageSet

/-- Writing members under their ids changes nothing. -/
theorem foldl_insert_eq_self (h : ∀ p ∈ nodes, a.get? p.id = some p) :
    nodes.foldl (fun m p => m.insert p.id p) a = a := by
  induction nodes with
  | nil => rfl
  | cons p rest ih =>
      rw [List.forall_mem_cons] at h
      rw [List.foldl_cons, OrderedMap.insert_eq_self h.1, ih h.2]

/-- The members of a set of a universe are the nodes of its ids. -/
theorem DrawnFrom.mem_entries_iff (ha : a.DrawnFrom u) {e : String × Node ρ} :
    e ∈ a.entries ↔ e.2 ∈ u.nodes ∧ e.2.id = e.1 ∧ e.1 ∈ a.keys := by
  constructor
  · exact fun he => ⟨(ha e he).1, (ha e he).2, List.mem_map_of_mem he⟩
  · rintro ⟨hnode, hid, hkey⟩
    rcases OrderedMap.mem_keys_iff.1 hkey with ⟨p, hp⟩
    have hmember := ha.node hp
    have hsame : p = e.2 := u.eq_of_id_eq hmember.1 hnode (hmember.2.trans hid.symm)
    rw [hsame] at hp
    exact OrderedMap.get?_eq_some_iff.1 hp

/-- The members of a closure are the nodes to which the members of the set lead. -/
theorem DrawnFrom.mem_closure_iff (ha : a.DrawnFrom u) {e : String × Node ρ} :
    e ∈ (PackageSet.ofClosure catalog a.values).entries ↔
      e.2 ∈ u.nodes ∧ e.2.id = e.1 ∧ ∃ x ∈ a.keys, ReflTransGen u.Imports x e.1 := by
  rw [ha.closure.mem_entries_iff, ha.mem_keys_closure_iff]

/-- A node belongs to the module of a member. -/
def SharesModule (a : PackageSet ρ) (p : Node ρ) : Prop :=
  ∃ name, p.moduleName = some name ∧ ∃ q ∈ a.values, q.moduleName = some name

theorem any_moduleName_iff {p : Node ρ} :
    p.moduleName.any (a.values.filterMap Node.moduleName).contains = true ↔ a.SharesModule p := by
  rw [Option.any_eq_true]
  unfold SharesModule
  simp only [List.contains_iff_mem, List.mem_filterMap]

/-- What a walk from the members meets are the members of the closure. -/
theorem DrawnFrom.mem_walkMembers_iff (ha : a.DrawnFrom u) {p : Node ρ} :
    p ∈ a.walkMembers catalog ↔ (p.id, p) ∈ (PackageSet.ofClosure catalog a.values).entries := by
  have hsurvey := ha.holdsEditions.survey
  have hnode : ∀ q ∈ a.walkMembers catalog, q ∈ u.nodes := by
    intro q hq
    rcases (explored_walk _ _ _ _).reached q hq with ⟨s, hs, -, hpath⟩
    have hs := ha.mem_nodes s (List.mem_reverse.1 hs)
    rcases ((stands_of_mem hs).path hpath).1 with rfl | hnode
    · exact hs
    · exact hnode
  rw [ha.mem_closure_iff, ← hsurvey.mem_iff, List.mem_map]
  constructor
  · exact fun hp => ⟨hnode p hp, rfl, p, hp, rfl⟩
  · rintro ⟨hp, -, q, hq, hid⟩
    have hsame : q = p := u.eq_of_id_eq (hnode q hq) hp hid
    rwa [← hsame]

theorem DrawnFrom.moduleDependencies (ha : a.DrawnFrom u) :
    (a.moduleDependencies catalog).DrawnFrom u := by
  intro e he
  rcases OrderedMap.mem_of_mem_foldl_insert he with hold | ⟨p, hp, rfl⟩
  · exact ha e hold
  · have hmet := ha.mem_walkMembers_iff.1 (List.mem_filter.1 hp).1
    exact ⟨(ha.mem_closure_iff.1 hmet).1, rfl⟩

/-- Within its modules, a set becomes itself together with those members of its closure that belong
    to the module of a member. -/
theorem DrawnFrom.mem_moduleDependencies_iff (ha : a.DrawnFrom u) {e : String × Node ρ} :
    e ∈ (a.moduleDependencies catalog).entries ↔
      e ∈ a.entries ∨ e ∈ (PackageSet.ofClosure catalog a.values).entries ∧ a.SharesModule e.2 := by
  have hkeys : e.1 ∈ (a.moduleDependencies catalog).keys ↔ e.1 ∈ a.keys ∨
      ∃ p ∈ a.walkMembers catalog, a.SharesModule p ∧ p.id = e.1 := by
    unfold PackageSet.moduleDependencies
    dsimp only
    rw [mem_keys_foldl_insert, List.mem_map]
    simp only [List.mem_filter, any_moduleName_iff, and_assoc]
  rw [ha.moduleDependencies.mem_entries_iff, hkeys]
  constructor
  · rintro ⟨hnode, hid, hold | ⟨p, hp, hshares, hpid⟩⟩
    · exact .inl (ha.mem_entries_iff.2 ⟨hnode, hid, hold⟩)
    · have hmet := ha.mem_walkMembers_iff.1 hp
      have hsame : p = e.2 :=
        u.eq_of_id_eq (ha.mem_closure_iff.1 hmet).1 hnode (hpid.trans hid.symm)
      subst hsame
      rw [hid] at hmet
      exact .inr ⟨hmet, hshares⟩
  · rintro (hold | ⟨hmet, hshares⟩)
    · exact ⟨(ha e hold).1, (ha e hold).2, .inl (List.mem_map_of_mem hold)⟩
    · have hmember := ha.mem_closure_iff.1 hmet
      refine ⟨hmember.1, hmember.2.1, .inr ⟨e.2, ?_, hshares, hmember.2.1⟩⟩
      rw [ha.mem_walkMembers_iff, hmember.2.1]
      exact hmet

/-- What is added within the modules of a set brings no other modules. -/
theorem DrawnFrom.sharesModule_moduleDependencies_iff (ha : a.DrawnFrom u) {p : Node ρ} :
    (a.moduleDependencies catalog).SharesModule p ↔ a.SharesModule p := by
  constructor
  · rintro ⟨name, hname, q, hq, hmodule⟩
    rcases List.mem_map.1 hq with ⟨e, he, rfl⟩
    rcases ha.mem_moduleDependencies_iff.1 he with hold | ⟨-, other, hother, r, hr, hrother⟩
    · exact ⟨name, hname, e.2, List.mem_map_of_mem hold, hmodule⟩
    · rw [hmodule, Option.some.injEq] at hother
      subst hother
      exact ⟨name, hname, r, hr, hrother⟩
  · rintro ⟨name, hname, q, hq, hmodule⟩
    rcases List.mem_map.1 hq with ⟨e, he, rfl⟩
    have hkept := ha.mem_moduleDependencies_iff.2 (Or.inl he)
    exact ⟨name, hname, e.2, List.mem_map_of_mem hkept, hmodule⟩

/-- What is added within the modules of a set leads nowhere else. -/
theorem DrawnFrom.closure_moduleDependencies_subset (ha : a.DrawnFrom u) :
    (PackageSet.ofClosure catalog (a.moduleDependencies catalog).values).entries ⊆
      (PackageSet.ofClosure catalog a.values).entries := by
  refine ha.moduleDependencies.isClosureOf.least _ ha.closure (fun e he => ?_)
    ha.isClosureOf.closed
  rcases ha.mem_moduleDependencies_iff.1 he with hold | hmet
  · exact ha.isClosureOf.contains hold
  · exact hmet.1

/-- Once is enough: within its modules, nothing is added to what a set has become. -/
theorem DrawnFrom.moduleDependencies_moduleDependencies (ha : a.DrawnFrom u) :
    (a.moduleDependencies catalog).moduleDependencies catalog = a.moduleDependencies catalog := by
  refine foldl_insert_eq_self fun p hp => ?_
  rcases List.mem_filter.1 hp with ⟨hmet, hmodule⟩
  rw [any_moduleName_iff, ha.sharesModule_moduleDependencies_iff] at hmodule
  have hclosure := ha.closure_moduleDependencies_subset (ha.moduleDependencies.mem_walkMembers_iff.1
    hmet)
  exact OrderedMap.get?_eq_some_iff.2 (ha.mem_moduleDependencies_iff.2 (.inr ⟨hclosure, hmodule⟩))

end PackageSet

end PackageAlgebra
