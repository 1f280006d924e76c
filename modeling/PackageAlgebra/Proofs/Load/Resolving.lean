import PackageAlgebra.Load.Loader
import PackageAlgebra.Package.Set
import PackageAlgebra.Proofs.Graph.Members

/-!
# Resolving Names

What a list of names stands for, name by name.

Names are resolved together: a node that several of them stand for is found once, and the
failures of all of them are one error. For the ids that are found it makes no difference. They
are those that one of the names stands for, and there are any only if each of the names stands
for something by itself.

## Main definitions

* `Resolution.StandsFor`: A name stands for an id.

## Theorems

* `Resolution.resolve_eq_ok_iff`: Names are resolved together if each of them can be.
* `Resolution.mem_iff_of_resolve`: The nodes that names stand for.
* `exists_resolveIn_eq_ok_iff`, `mem_keys_of_resolveIn`: The same for answers of a loader, by their
  ids.
-/

namespace PackageAlgebra

variable {ρ : Type} {r : Resolution ρ} {names : List String} {name x : String}
  {roots : List (Node ρ)} {p : Node ρ}

namespace Resolution

/-- A name stands for an id. -/
def StandsFor (r : Resolution ρ) (name id : String) : Prop :=
  ∃ ids, r.matchesOf name = some ids ∧ id ∈ ids

/-- What a name stands for are ids of candidates. -/
theorem StandsFor.mem_keys (h : r.StandsFor name x) : x ∈ r.candidates.keys := by
  rcases h with ⟨ids, hmatches, hx⟩
  unfold matchesOf at hmatches
  dsimp only at hmatches
  by_cases hstd : name = stdPattern
  · rw [if_pos hstd, Option.some.injEq] at hmatches
    rw [← hmatches] at hx
    rcases List.mem_map.1 hx with ⟨e, he, rfl⟩
    exact List.mem_map_of_mem (List.mem_filter.1 he).1
  · rw [if_neg hstd, Option.ite_none_left_eq_some, Option.some.injEq] at hmatches
    rw [← hmatches.2] at hx
    by_cases hwild : isWildcard name = true
    · rw [if_pos hwild] at hx
      rcases List.mem_map.1 hx with ⟨e, he, rfl⟩
      exact List.mem_map_of_mem (List.mem_filter.1 he).1
    · rw [if_neg hwild, List.mem_ite_nil_right, List.mem_cons] at hx
      rcases hx with ⟨hname, rfl | hx⟩
      · exact OrderedMap.contains_iff_mem_keys.1 hname
      · rw [List.mem_ite_nil_right] at hx
        exact (List.mem_filter.1 hx.2).1

/-- Names are resolved together if each of them stands for something. -/
theorem resolve_eq_ok_iff :
    (∃ roots, r.resolve names = .ok roots) ↔ ∀ name ∈ names, (r.matchesOf name).isSome := by
  have hfailures : r.failures names = [] ↔ ∀ name ∈ names, (r.matchesOf name).isSome := by
    unfold failures
    rw [List.filter_eq_nil_iff]
    simp only [Option.isNone_iff_eq_none, Option.isSome_iff_ne_none, ne_eq]
  rw [← hfailures, ← List.isEmpty_iff]
  unfold resolve
  split
  · next h => exact iff_of_true ⟨_, rfl⟩ h
  · next h =>
      refine iff_of_false ?_ h
      rintro ⟨roots, hroots⟩
      cases hroots

/-- The nodes that names stand for are those of the ids for which one of them stands. -/
theorem mem_iff_of_resolve (h : r.resolve names = .ok roots) :
    p ∈ roots ↔ ∃ name ∈ names, ∃ x, r.StandsFor name x ∧ r.candidates.get? x = some p := by
  have hall := resolve_eq_ok_iff.1 ⟨roots, h⟩
  unfold resolve at h
  split at h
  · rw [Except.ok.injEq] at h
    rw [← h, List.mem_filterMap]
    simp only [mem_foldl_distinct, List.not_mem_nil, false_or, List.mem_flatMap]
    constructor
    · rintro ⟨x, ⟨name, hname, hx⟩, hp⟩
      rcases Option.isSome_iff_exists.1 (hall name hname) with ⟨ids, hids⟩
      rw [hids, Option.getD_some] at hx
      exact ⟨name, hname, x, ⟨ids, hids, hx⟩, hp⟩
    · rintro ⟨name, hname, x, ⟨ids, hids, hx⟩, hp⟩
      refine ⟨x, ⟨name, hname, ?_⟩, hp⟩
      rwa [hids, Option.getD_some]
  · cases h

end Resolution

theorem mem_keys_ofRoots_iff : x ∈ (PackageSet.ofRoots roots).keys ↔ ∃ p ∈ roots, p.id = x := by
  unfold PackageSet.ofRoots
  rw [OrderedMap.mem_keys_ofList, List.map_map, List.mem_map]
  rfl

variable {nodes : OrderedMap String (Node ρ)} {inWildcards : Node ρ → Bool} {config : LoadConfig}

/-- An answer from a universe is that of its names, resolved together. -/
theorem resolveIn_eq_ok_iff : resolveIn nodes inWildcards config names = .ok roots ↔
    (Resolution.mk nodes inWildcards config.tests).resolve names = .ok roots := by
  unfold resolveIn
  cases (Resolution.mk nodes inWildcards config.tests).resolve names with
  | error failed => simp only [reduceCtorEq]
  | ok found => simp only [Except.ok.injEq]

/-- Names have an answer together if each of them stands for something. -/
theorem exists_resolveIn_eq_ok_iff :
    (∃ roots, resolveIn nodes inWildcards config names = .ok roots) ↔
      ∀ name ∈ names, ((Resolution.mk nodes inWildcards config.tests).matchesOf name).isSome := by
  simp only [resolveIn_eq_ok_iff, Resolution.resolve_eq_ok_iff]

/-- An answer has the ids for which one of the names stands, if nodes are filed under their
    ids. -/
theorem mem_keys_of_resolveIn (hids : ∀ id p, nodes.get? id = some p → p.id = id)
    (h : resolveIn nodes inWildcards config names = .ok roots) :
    x ∈ (PackageSet.ofRoots roots).keys ↔
      ∃ name ∈ names, (Resolution.mk nodes inWildcards config.tests).StandsFor name x := by
  rw [resolveIn_eq_ok_iff] at h
  rw [mem_keys_ofRoots_iff]
  constructor
  · rintro ⟨p, hp, rfl⟩
    rcases (Resolution.mem_iff_of_resolve h).1 hp with ⟨name, hname, x, hstands, hx⟩
    rw [hids x p hx]
    exact ⟨name, hname, hstands⟩
  · rintro ⟨name, hname, hstands⟩
    rcases OrderedMap.mem_keys_iff.1 hstands.mem_keys with ⟨p, hp⟩
    exact ⟨p, (Resolution.mem_iff_of_resolve h).2 ⟨name, hname, x, hstands, hp⟩, hids x p hp⟩

end PackageAlgebra
