import PackageAlgebra.Proofs.Load.Resolving
import PackageAlgebra.Proofs.Load.Variants

/-!
# Names with and without Tests

What a name stands for where tests are wanted and where they are not.

A record is that of a test package by its flag or by its id. Without tests neither kind exists, so
what a name stands for then is never a test package. With tests a name stands for more: a wildcard
for the test packages that fit it, an id for the tests of its package, and the name of the standard
library for those within it.

Which of the packages are there without tests is told by their records, as long as ids are
different; for of two records with one id the one may be a test package and the other one not, and
they need not agree on anything else.

## Main definitions

* `Resolution.ofRecords`: What names are resolved against, with or without tests.

## Theorems

* `Resolution.standsFor_iff`: What a name stands for, by the form of the name.
* `Resolution.isSome_matchesOf_iff`: When it stands for anything.
* `isTestPackage_of_standsFor`: Without tests there are no test packages.
* `standsFor_without_tests_iff`, `forall_standsFor_iff_flagged`: What is left without tests.
-/

namespace PackageAlgebra

variable {ρ : Type} {records : List PackageRecord} {config : LoadConfig} {name x : String}
  {r : PackageRecord}

namespace Resolution

/-- What a name stands for: the packages of the standard library, those that fit a wildcard, or the
    package with the id and its tests, if they are wanted. -/
theorem standsFor_iff {r : Resolution ρ} : r.StandsFor name x ↔
    if name = stdPattern then ∃ p, r.candidates.get? x = some p ∧ p.std = true
    else if isWildcard name = true then
      ∃ p, r.candidates.get? x = some p ∧ r.inWildcards p = true ∧ matchPattern name x = true
    else name ∈ r.candidates.keys ∧
      (x = name ∨ r.withTests = true ∧ x ∈ r.candidates.keys ∧ isTestOf name x = true) := by
  have hfiltered : ∀ keep : String × Node ρ → Bool,
      x ∈ (r.candidates.entries.filter keep).map Prod.fst ↔
        ∃ p, r.candidates.get? x = some p ∧ keep (x, p) = true := by
    intro keep
    simp only [List.mem_map, List.mem_filter, Prod.exists, exists_and_right, exists_eq_right,
      OrderedMap.get?_eq_some_iff]
  -- A list of which something is a member is not empty.
  have hfound : ∀ found : List String,
      (∃ ids, (if found.isEmpty = true then none else some found) = some ids ∧ x ∈ ids) ↔
        x ∈ found := by
    intro found
    simp only [Option.ite_none_left_eq_some, Option.some.injEq]
    constructor
    · rintro ⟨ids, ⟨-, rfl⟩, hx⟩
      exact hx
    · intro hx
      have hne : ¬ found.isEmpty = true :=
        fun hempty => List.ne_nil_of_mem hx (List.isEmpty_iff.1 hempty)
      exact ⟨found, ⟨hne, rfl⟩, hx⟩
  unfold StandsFor matchesOf
  by_cases hstd : name = stdPattern
  · simp only [hstd, if_true, Option.some.injEq, exists_eq_left', hfiltered]
  by_cases hwild : isWildcard name = true
  · simp only [hstd, hwild, if_false, if_true, hfound, hfiltered, Bool.and_eq_true]
  · simp only [hstd, hwild, if_false, Bool.false_eq_true, hfound, List.mem_ite_nil_right,
      List.mem_cons, List.mem_filter, OrderedMap.contains_iff_mem_keys]

/-- A name stands for nothing unless it stands for an id, but for that of the standard library. -/
theorem isSome_matchesOf_iff {r : Resolution ρ} :
    (r.matchesOf name).isSome = true ↔ name = stdPattern ∨ ∃ x, r.StandsFor name x := by
  unfold StandsFor
  by_cases hstd : name = stdPattern
  · refine iff_of_true ?_ (.inl hstd)
    unfold matchesOf
    simp only [hstd, if_true, Option.isSome_some]
  · rw [Option.isSome_iff_exists, or_iff_right hstd]
    constructor
    · rintro ⟨ids, hids⟩
      have hne : ids ≠ [] := by
        rintro rfl
        unfold matchesOf at hids
        simp only [hstd, if_false, Option.ite_none_left_eq_some, Option.some.injEq] at hids
        exact hids.1 (List.isEmpty_iff.2 hids.2)
      rcases List.exists_mem_of_ne_nil ids hne with ⟨x, hx⟩
      exact ⟨x, ids, hids, hx⟩
    · rintro ⟨x, ids, hids, -⟩
      exact ⟨ids, hids⟩

/-- What names are resolved against in a list of records, with or without tests. -/
def ofRecords (records : List PackageRecord) (config : LoadConfig) (tests : Bool) :
    Resolution NodeRef :=
  ⟨Universe.ofRecords records { config with tests := tests }.variant, fun p => !p.std, tests⟩

end Resolution

open Resolution

/-! ### Records -/

/-- Without tests a record exists if it exists with them and is not that of a test package. -/
theorem existsIn_without_tests_iff :
    r.existsIn { config with tests := false }.variant = true ↔
      r.existsIn { config with tests := true }.variant = true ∧ r.isTest = false := by
  unfold PackageRecord.existsIn LoadConfig.variant LoadConfig.activeTags
  simp only [Bool.false_or, Bool.true_or, Bool.true_and, Bool.and_eq_true, Bool.not_eq_true',
    and_comm]

/-- Without tests there are no test packages. -/
theorem isTestPackage_of_standsFor (h : (ofRecords records config false).StandsFor name x) :
    isTestPackage x = false := by
  rcases Universe.mem_keys_ofRecords_iff.1 h.mem_keys with ⟨r, -, hexists, rfl⟩
  have htest := (existsIn_without_tests_iff.1 hexists).2
  unfold PackageRecord.isTest at htest
  exact (Bool.or_eq_false_iff.1 htest).2

/-- A node of a universe is one of a record, if the ids of records are different. -/
theorem exists_get?_ofRecords_iff (hids : (records.map PackageRecord.id).Nodup) {v : Variant}
    {P : Bool → Prop} :
    (∃ p, (Universe.ofRecords records v).get? x = some p ∧ P p.std) ↔
      ∃ r ∈ records, r.existsIn v = true ∧ r.id = x ∧ P r.std := by
  constructor
  · rintro ⟨p, hp, hstd⟩
    rcases Universe.get?_ofRecords_eq_some hp with ⟨r, hr, hexists, hid, rfl⟩
    exact ⟨r, hr, hexists, hid, hstd⟩
  · rintro ⟨r, hr, hexists, rfl, hstd⟩
    exact ⟨_, Universe.get?_ofRecords hids hr hexists, hstd⟩

/-- Where ids are different, a name stands without tests for what it stands for with them, but for
    the test packages. -/
theorem standsFor_without_tests_iff (hids : (records.map PackageRecord.id).Nodup) :
    (ofRecords records config false).StandsFor name x ↔
      (ofRecords records config true).StandsFor name x ∧
        ∀ r ∈ records, r.id = x → r.isTest = false := by
  -- A record with the id is the one that the node comes from.
  have hown : ∀ {P : PackageRecord → Prop},
      (∃ r ∈ records, r.existsIn { config with tests := false }.variant = true ∧ r.id = x ∧ P r) ↔
        (∃ r ∈ records, r.existsIn { config with tests := true }.variant = true ∧ r.id = x ∧ P r) ∧
          ∀ r ∈ records, r.id = x → r.isTest = false := by
    intro P
    simp only [existsIn_without_tests_iff]
    constructor
    · rintro ⟨r, hr, ⟨hexists, htest⟩, rfl, hP⟩
      refine ⟨⟨r, hr, hexists, rfl, hP⟩, fun other hother hid => ?_⟩
      rwa [List.inj_on_of_nodup_map hids hother hr hid]
    · rintro ⟨⟨r, hr, hexists, hid, hP⟩, hall⟩
      exact ⟨r, hr, ⟨hexists, hall r hr hid⟩, hid, hP⟩
  rw [standsFor_iff, standsFor_iff]
  unfold ofRecords
  by_cases hstd : name = stdPattern
  · simp only [hstd, if_true]
    rw [exists_get?_ofRecords_iff hids (P := fun std => std = true),
      exists_get?_ofRecords_iff hids (P := fun std => std = true)]
    exact hown (P := fun r => r.std = true)
  by_cases hwild : isWildcard name = true
  · simp only [hstd, hwild, if_false, if_true]
    rw [exists_get?_ofRecords_iff hids (P := fun std => (!std) = true ∧ matchPattern name x = true),
      exists_get?_ofRecords_iff hids (P := fun std => (!std) = true ∧ matchPattern name x = true)]
    exact hown (P := fun r => (!r.std) = true ∧ matchPattern name x = true)
  · simp only [hstd, hwild, Bool.false_eq_true, false_and, or_false, if_false, true_and]
    have hkeys := hown (P := fun _ => True)
    simp only [and_true, ← Universe.mem_keys_ofRecords_iff] at hkeys
    constructor
    · rintro ⟨hname, rfl⟩
      exact ⟨⟨(hkeys.1 hname).1, .inl rfl⟩, (hkeys.1 hname).2⟩
    · rintro ⟨⟨hname, rfl | ⟨hx, htestOf⟩⟩, hall⟩
      · exact ⟨hkeys.2 ⟨hname, hall⟩, rfl⟩
      · -- What an id stands for beside itself are test packages.
        rcases Universe.mem_keys_ofRecords_iff.1 hx with ⟨r, hr, -, rfl⟩
        have htest := hall r hr rfl
        unfold isTestOf at htestOf
        unfold PackageRecord.isTest at htest
        simp only [Bool.and_eq_true] at htestOf
        rw [htestOf.1.2, Bool.or_true] at htest
        cases htest

/-- Where ids are different, a name stands without tests for what it stands for with them and what
    is not named like a test, if no package that it stands for is flagged as a test but not named
    like one. -/
theorem forall_standsFor_iff_flagged (hids : (records.map PackageRecord.id).Nodup) :
    (∀ x, (ofRecords records config false).StandsFor name x ↔
        (ofRecords records config true).StandsFor name x ∧ isTestPackage x = false) ↔
      ∀ r ∈ records, (ofRecords records config true).StandsFor name r.id → r.test = true →
        isTestPackage r.id = true := by
  constructor
  · intro hall r hr hstands hflag
    by_contra hnamed
    rw [Bool.not_eq_true] at hnamed
    have hwithout := (hall r.id).2 ⟨hstands, hnamed⟩
    have htest := ((standsFor_without_tests_iff hids).1 hwithout).2 r hr rfl
    unfold PackageRecord.isTest at htest
    rw [hflag, Bool.true_or] at htest
    cases htest
  · intro hall x
    constructor
    · intro hx
      exact ⟨((standsFor_without_tests_iff hids).1 hx).1, isTestPackage_of_standsFor hx⟩
    · rintro ⟨hx, hnamed⟩
      refine (standsFor_without_tests_iff hids).2 ⟨hx, ?_⟩
      rintro r hr rfl
      unfold PackageRecord.isTest
      rw [hnamed, Bool.or_false, ← Bool.not_eq_true]
      intro hflag
      rw [hall r hr hx hflag] at hnamed
      cases hnamed

end PackageAlgebra
