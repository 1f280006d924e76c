import PackageAlgebra.Load.FromRecords
import PackageAlgebra.Proofs.Load.History

/-!
# Answers from Records

Which names a list of records knows.

The loader of a list of records keeps the universes that it has built, so what it answers
might depend on what it was asked before. It does not: a kept universe is the one that would
be built anew, and each question leaves it that way. An answer is therefore a matter of the
records, of the configuration and of the names alone.

A name is known if a package of the universe fits it. Two kinds of names are special.
Packages of the standard library do not fit wildcards, and the name of the standard library
is known even where there is none.

## Main definitions

* `UniverseTable.BuiltFrom`: A table keeps universes of a list of records.
* `UniverseTable.KeptIn`: The universes of a table are still there in another one.
* `Unanswered`: No package fits a name.

## Theorems

* `UniverseTable.BuiltFrom.require`: A universe is kept or built, and is the same.
* `UniverseTable.BuiltFrom.after`, `UniverseTable.keptIn_after`: So it is after every history.
* `isNone_matchesOf_iff`: A name stands for nothing if no package fits it.
* `load_recordLoader`: All names that nothing fits are reported, in order, or none.
-/

namespace PackageAlgebra

variable {records : List PackageRecord} {config : LoadConfig} {t : UniverseTable}

/-- A table keeps universes of a list of records. -/
def UniverseTable.BuiltFrom (records : List PackageRecord) (t : UniverseTable) : Prop :=
  ∀ v u, t.get? v = some u → u = Universe.ofRecords records v

namespace UniverseTable

theorem builtFrom_empty : BuiltFrom records .empty := by
  intro v u h
  exact absurd h (by simp only [OrderedMap.get?, OrderedMap.empty, List.find?_nil, Option.map_none,
    reduceCtorEq, not_false_eq_true])

theorem require_of_some {v : Variant} {u : Universe} (h : t.get? v = some u)
    (build : Variant → Universe) : t.require v build = (u, t) := by
  unfold UniverseTable.require
  rw [h]

theorem require_of_none {v : Variant} (h : t.get? v = none) (build : Variant → Universe) :
    t.require v build = (build v, t.insert v (build v)) := by
  unfold UniverseTable.require
  rw [h]

/-- A universe that a table has after one was required was there before, or is the one that was
    built. -/
theorem get?_of_get?_require {v w : Variant} {build : Variant → Universe} {u : Universe}
    (h : (t.require v build).2.get? w = some u) : t.get? w = some u ∨ (w = v ∧ u = build v) := by
  cases hget : t.get? v with
  | some _ =>
      rw [require_of_some hget] at h
      exact .inl h
  | none =>
      rw [require_of_none hget, OrderedMap.get?_insert] at h
      by_cases hv : w = v
      · rw [if_pos hv, Option.some.injEq] at h
        exact .inr ⟨hv, h.symm⟩
      · rw [if_neg hv] at h
        exact .inl h

/-- A universe is kept or built, and is the same. -/
theorem BuiltFrom.require (h : t.BuiltFrom records) (v : Variant) :
    (t.require v (Universe.ofRecords records)).1 = Universe.ofRecords records v ∧
      (t.require v (Universe.ofRecords records)).2.BuiltFrom records := by
  constructor
  · cases hget : t.get? v with
    | some u =>
        rw [require_of_some hget]
        exact h v u hget
    | none => rw [require_of_none hget]
  · intro w u hw
    rcases get?_of_get?_require hw with hkept | ⟨rfl, hbuilt⟩
    · exact h w u hkept
    · exact hbuilt

/-- The universe that was asked for is kept. -/
theorem get?_require (t : UniverseTable) (v : Variant) (build : Variant → Universe) :
    (t.require v build).2.get? v = some (t.require v build).1 := by
  cases hget : t.get? v with
  | some u => rw [require_of_some hget, hget]
  | none => rw [require_of_none hget, OrderedMap.get?_insert, if_pos rfl]

/-- The universes of a table are still there in another one. -/
def KeptIn (t t' : UniverseTable) : Prop := ∀ v u, t.get? v = some u → t'.get? v = some u

theorem keptIn_require (t : UniverseTable) (v : Variant) (build : Variant → Universe) :
    t.KeptIn (t.require v build).2 := by
  intro w u hw
  cases hget : t.get? v with
  | some _ => rwa [require_of_some hget]
  | none =>
      rw [require_of_none hget, OrderedMap.get?_insert, if_neg, hw]
      rintro rfl
      rw [hw] at hget
      cases hget

end UniverseTable

/-- The loader has all packages of a configuration, whatever it was asked before. -/
theorem allNodes_recordLoader (h : t.BuiltFrom records) :
    (recordLoader records).allNodes config t =
      (.ok (Universe.ofRecords records config.variant),
        (t.require config.variant (Universe.ofRecords records)).2) := by
  unfold recordLoader
  simp only [(h.require config.variant).1]

/-- A question leaves the table as it is, or a universe is required. -/
theorem afterOne_recordLoader (records : List PackageRecord) (t : UniverseTable) (q : Question) :
    (recordLoader records).afterOne t q = t ∨
      ∃ v, (recordLoader records).afterOne t q = (t.require v (Universe.ofRecords records)).2 := by
  cases q with
  | load config patterns =>
      by_cases hcancelled : config.cancelled 0 = true
      · refine Or.inl ?_
        simp only [Loader.afterOne, recordLoader, hcancelled, if_true]
      · refine Or.inr ⟨config.variant, ?_⟩
        simp only [Loader.afterOne, recordLoader, hcancelled, Bool.false_eq_true, if_false]
  | allNodes config => exact Or.inr ⟨config.variant, rfl⟩

/-- After any history, the universes that are kept are those that would be built anew. -/
theorem UniverseTable.BuiltFrom.after (h : t.BuiltFrom records) (history : List Question) :
    ((recordLoader records).after history t).BuiltFrom records := by
  refine Loader.after_of_kept (fun t q ht => ?_) history h
  rcases afterOne_recordLoader records t q with hsame | ⟨v, hrequired⟩
  · rwa [hsame]
  · rw [hrequired]
    exact (ht.require v).2

/-- After any history, the universes that were kept are still there. -/
theorem UniverseTable.keptIn_after (records : List PackageRecord) (t : UniverseTable)
    (history : List Question) : t.KeptIn ((recordLoader records).after history t) := by
  refine Loader.after_of_kept (P := t.KeptIn) (fun t' q ht' => ?_) history fun _ _ h => h
  rcases afterOne_recordLoader records t' q with hsame | ⟨v, hrequired⟩
  · rwa [hsame]
  · rw [hrequired]
    exact fun w u hu => UniverseTable.keptIn_require t' v _ w u (ht' w u hu)

/-- No package fits a name: none has it as its id, or none outside the standard library is
    below it. -/
def Unanswered (records : List PackageRecord) (config : LoadConfig) (name : String) : Prop :=
  name ≠ stdPattern ∧ ∀ e ∈ (Universe.ofRecords records config.variant).entries,
    ¬ (matchPattern name e.1 = true ∧ (isWildcard name = true → e.2.std = false))

instance (records : List PackageRecord) (config : LoadConfig) (name : String) :
    Decidable (Unanswered records config name) :=
  inferInstanceAs (Decidable (_ ∧ _))

/-- A name stands for nothing if no package fits it. -/
theorem matchesOf_eq_none_iff {name : String} :
    (Resolution.mk (Universe.ofRecords records config.variant) (fun p => !p.std)
      config.tests).matchesOf name = none ↔ Unanswered records config name := by
  unfold Resolution.matchesOf Unanswered
  by_cases hstd : name = stdPattern
  · simp only [hstd, if_true, reduceCtorEq, ne_eq, not_true, false_and]
  simp only [hstd, if_false, ite_eq_left_iff, reduceCtorEq, imp_false, Decidable.not_not,
    List.isEmpty_iff, ne_eq, not_false_eq_true, true_and]
  by_cases hwild : isWildcard name = true
  · -- A wildcard stands for what is left by a filter.
    simp only [hwild, if_true, List.map_eq_nil_iff, List.filter_eq_nil_iff, Bool.and_eq_true,
      Bool.not_eq_true', forall_const, and_comm]
  · -- Another name stands for the package of its own, if there is one.
    have hname : ∀ e : String × Node NodeRef, matchPattern name e.1 = true ↔ e.1 = name := by
      intro e
      rw [matchPattern, if_neg hwild, decide_eq_true_eq]
    simp only [hwild, hname, Bool.false_eq_true, if_false, ite_eq_right_iff, List.cons_ne_nil,
      imp_false, false_implies, and_true]
    rw [OrderedMap.contains_iff_mem_keys, OrderedMap.keys, List.mem_map]
    constructor
    · intro hnot e he heq
      exact hnot ⟨e, he, heq⟩
    · rintro hall ⟨e, he, heq⟩
      exact hall e he heq

/-- The names that nothing fits are reported, all of them and in order; if there are none,
    there is an answer. -/
theorem resolveIn_ofRecords (records : List PackageRecord) (config : LoadConfig)
    (names : List String) :
    let missing := names.filter fun name => Unanswered records config name
    let answer := resolveIn (Universe.ofRecords records config.variant) (fun p => !p.std) config
      names
    (missing = [] ∧ ∃ roots, answer = .ok roots) ∨
      (missing ≠ [] ∧ answer = .error (.noMatch missing)) := by
  intro missing answer
  have hfailures : (Resolution.mk (Universe.ofRecords records config.variant) (fun p => !p.std)
      config.tests).failures names = missing := by
    refine List.filter_congr fun name _ => ?_
    rw [Bool.eq_iff_iff, Option.isNone_iff_eq_none, matchesOf_eq_none_iff, decide_eq_true_eq]
  have hanswer : answer = resolveIn _ _ config names := rfl
  unfold resolveIn Resolution.resolve at hanswer
  rw [hfailures] at hanswer
  rw [hanswer]
  cases missing with
  | nil => exact .inl ⟨rfl, _, rfl⟩
  | cons name rest => exact .inr ⟨List.cons_ne_nil name rest, rfl⟩

/-- The answer of the loader does not depend on what it was asked before. -/
theorem load_recordLoader (hcancelled : config.cancelled 0 = false) (h : t.BuiltFrom records)
    (names : List String) :
    (recordLoader records).load config names t =
      (resolveIn (Universe.ofRecords records config.variant) (fun p => !p.std) config names,
        (t.require config.variant (Universe.ofRecords records)).2) := by
  unfold recordLoader
  simp only [hcancelled, Bool.false_eq_true, if_false, (h.require config.variant).1]

end PackageAlgebra
