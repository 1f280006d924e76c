import PackageAlgebra.Proofs.Calculator.TestLookups

/-!
# Two Ways to Tests

Tests of a name that is loaded, and tests of a variable that has been bound to the name.

Where tests are not wanted, there are two ways to come to the tests of a name. The selector for
tests may stand behind the name itself. Then the name is loaded again: with tests, to have those of
the packages that it stands for, or without tests, to have the others. Or the name is bound to a
variable, and the selector stands behind the variable. Then the packages that the name stands for
without tests are looked up one by one with tests, and each brings its own.

For an id this is the same, since a package is looked up by its id in both ways. For a wildcard it
is not. A wildcard does not care what a test is a test of: it has the tests that fit it. An id has
the tests that go on after it, and does not care whether they fit the wildcard. So the two ways lead
to the same tests if and only if the tests that fit are those of the packages that fit.

## Main definitions

* `HasIds`, `SameIds`: When runs have sets, and with which ids.
* `Expr.byVariable`: A selector behind a variable that is bound to a name.
* `Combinator.Loads`, `Combinator.Combines`: What a sign makes of a name, and of a set.

## Theorems

* `hasIds_directly`, `hasIds_byVariable`: What is found in either way.
* `evaluate_tests_both_ways`: When the two ways lead to the same ids.
* `evaluate_tests_both_ways_differ`: A test without its package, and one that does not fit.
-/

namespace PackageAlgebra

open Calc

variable {σ ρ : Type} {c : Combinator} {n x y name selector : String}

/-! ### Ids of runs -/

/-- A run has a set if a condition holds, and then the ids of the set are those with a property. -/
structure HasIds (run : Except Failure (PackageSet ρ) × CalcState σ ρ) (possible : Prop)
    (ids : String → Prop) : Prop where
  -- There is a set under the condition.
  exists_iff : (∃ a t, run = (.ok a, t)) ↔ possible
  -- The ids have the property.
  mem_iff : ∀ a t, run = (.ok a, t) → ∀ y, y ∈ a.keys ↔ ids y

/-- Two runs have sets with the same ids. -/
def SameIds (first second : Except Failure (PackageSet ρ) × CalcState σ ρ) : Prop :=
  ∃ a t b u, first = (.ok a, t) ∧ second = (.ok b, u) ∧ ∀ y, y ∈ a.keys ↔ y ∈ b.keys

section

variable {first second : Except Failure (PackageSet ρ) × CalcState σ ρ} {p q : Prop}
  {P Q : String → Prop}

theorem sameIds_iff (h : HasIds first p P) (h' : HasIds second q Q) :
    SameIds first second ↔ p ∧ q ∧ ∀ y, P y ↔ Q y := by
  constructor
  · rintro ⟨a, t, b, u, hfirst, hsecond, hsame⟩
    refine ⟨h.exists_iff.1 ⟨a, t, hfirst⟩, h'.exists_iff.1 ⟨b, u, hsecond⟩, fun y => ?_⟩
    rw [← h.mem_iff a t hfirst, hsame, h'.mem_iff b u hsecond]
  · rintro ⟨hp, hq, hall⟩
    rcases h.exists_iff.2 hp with ⟨a, t, hfirst⟩
    rcases h'.exists_iff.2 hq with ⟨b, u, hsecond⟩
    refine ⟨a, t, b, u, hfirst, hsecond, fun y => ?_⟩
    rw [h.mem_iff a t hfirst, hall, h'.mem_iff b u hsecond]

theorem hasIds_of_ok {a : PackageSet ρ} {t : CalcState σ ρ} (hrun : first = (.ok a, t)) (hp : p)
    (hids : ∀ y, y ∈ a.keys ↔ P y) : HasIds first p P := by
  refine ⟨iff_of_true ⟨a, t, hrun⟩ hp, fun b u hb => ?_⟩
  cases hrun.symm.trans hb
  exact hids

theorem hasIds_of_error {e : Failure} {t : CalcState σ ρ} (hrun : first = (.error e, t))
    (hp : ¬ p) : HasIds first p P := by
  refine ⟨iff_of_false ?_ hp, fun b u hb => by cases hrun.symm.trans hb⟩
  rintro ⟨b, u, hb⟩
  cases hrun.symm.trans hb

end

/-- What a sign makes of the ids of an operand and of a selection. -/
def Combinator.Combines : Combinator → Prop → Prop → Prop
  | keep, _, selected => selected
  | add, inOperand, selected => inOperand ∨ selected
  | remove, inOperand, selected => inOperand ∧ ¬ selected

theorem Combinator.mem_keys_apply {a b : PackageSet ρ} :
    y ∈ (c.apply a b).keys ↔ c.Combines (y ∈ a.keys) (y ∈ b.keys) := by
  cases c with
  | keep => rfl
  | add => exact PackageSet.mem_keys_union
  | remove => exact PackageSet.mem_keys_subtract

/-- Whether the selector for tests loads a name with tests. -/
def Combinator.wantsTests : Combinator → Bool
  | keep => true
  | add => true
  | remove => false

/-- What the selector for tests has of a name that it loads, by what the name stands for with and
    without tests. -/
def Combinator.Loads (c : Combinator) (fits : Bool → String → Prop) (y : String) : Prop :=
  match c with
  | keep => fits true y ∧ isTestPackage y = true
  | add => fits true y
  | remove => fits false y

/-! ### By way of a variable -/

/-- A name is bound to a variable, and a selector is applied to the variable. -/
def Expr.byVariable (x n selector : String) : Expr :=
  .sequence [.assign x (.package n), .select (.package x) selector]

/-- The variable has the value of the name, and its members are looked up. -/
theorem evaluate_byVariable {parties : Calculator σ ρ} {ctx : Context} {s t : CalcState σ ρ}
    {a : PackageSet ρ} (hselector : Combinator.ofText selector = (c, name))
    (hname : Selection.ofName? name = some .test)
    (hrun : evaluate parties ctx (.package n) s = (.ok a, t)) (hx : t.bindings.get? x = none) :
    evaluate parties ctx (.byVariable x n selector) s =
      testsOfSet parties ctx c a { t with bindings := t.bindings.insert x a } := by
  have hassign : evaluate parties ctx (.assign x (.package n)) s =
      (.ok a, { t with bindings := t.bindings.insert x a }) := by
    rw [evaluate, bind_ok hrun, bind_ok (bindVariable_of_none a hx)]
    rfl
  have hbound : (t.bindings.insert x a).get? x = some a := by
    rw [OrderedMap.get?_insert, if_pos rfl]
  have hvariable : evaluate parties ctx (.package x) { t with bindings := t.bindings.insert x a } =
      (.ok a, { t with bindings := t.bindings.insert x a }) := by
    rw [evaluate_package, hbound]
  have hlast : (evaluate parties ctx (.select (.package x) selector) >>=
      fun b => evaluateLast parties ctx b []) =
        evaluate parties ctx (.select (.package x) selector) := by
    simp only [evaluateLast, bind_pure]
  unfold Expr.byVariable
  rw [evaluate, evaluateLast, bind_ok hassign, evaluateLast, hlast]
  refine evaluate_tests_of_value hselector hname (fun m hm => ?_) hvariable
  cases hm
  rw [hbound]
  exact Option.some_ne_none a

/-! ### Records -/

variable {records : List PackageRecord} {ctx : Context} {oracle : Option (Oracle UniverseTable)}
  {envKeys : List String} {s t : CalcState UniverseTable NodeRef}

open Resolution (ofRecords)

/-- A name that is loaded for its tests has a set if it stands for anything then. -/
theorem hasIds_directly (hs : s.loader.BuiltFrom records) (hn : s.bindings.get? n = none)
    (hcancelled : ctx.config.cancelled 0 = false)
    (hselector : Combinator.ofText selector = (c, name))
    (hname : Selection.ofName? name = some .test) :
    let fits tests := (ofRecords records ctx.config tests).StandsFor n
    HasIds (evaluate ⟨recordLoader records, oracle, envKeys⟩ ctx (.select (.package n) selector) s)
      (n = stdPattern ∨ ∃ y, fits c.wantsTests y) (c.Loads fits) := by
  intro fits
  have hload : ∀ tests, HasIds (loadRoots ⟨recordLoader records, oracle, envKeys⟩
      { ctx.config with tests := tests } [n] s) (n = stdPattern ∨ ∃ y, fits tests y)
        (fits tests) := by
    intro tests
    have hloaded := loadRoots_name oracle envKeys hs ctx.config n tests
    exact ⟨hloaded.1.trans (and_iff_right hcancelled), hloaded.2⟩
  rw [evaluate_tests_of_name hselector hname hn]
  cases c with
  | add => exact hload true
  | remove => exact hload false
  | keep =>
      change HasIds ((loadRoots _ _ [n] >>= _) s) _ _
      rcases hfound : loadRoots ⟨recordLoader records, oracle, envKeys⟩
        { ctx.config with tests := true } [n] s with ⟨e | a, t⟩
      · rw [bind_error hfound]
        refine hasIds_of_error rfl fun hp => ?_
        rcases (hload true).exists_iff.2 hp with ⟨a, u, ha⟩
        cases hfound.symm.trans ha
      · rw [bind_ok hfound]
        refine hasIds_of_ok rfl ((hload true).exists_iff.1 ⟨a, t, hfound⟩) fun y => ?_
        rw [mem_keys_tests (filed_of_loadRoots hfound), (hload true).mem_iff a t hfound]
        rfl

/-- By way of a variable there is a set if each of the packages that the name stands for is found
    again by its id. -/
theorem hasIds_byVariable (hs : s.loader.BuiltFrom records) (hn : s.bindings.get? n = none)
    (hx : s.bindings.get? x = none) (htests : ctx.config.tests = false)
    (hselector : Combinator.ofText selector = (c, name))
    (hname : Selection.ofName? name = some .test) {a : PackageSet NodeRef}
    (hrun : evaluate ⟨recordLoader records, oracle, envKeys⟩ ctx (.package n) s = (.ok a, t)) :
    let fits := (ofRecords records ctx.config false).StandsFor n
    let again := (ofRecords records ctx.config true).StandsFor
    HasIds (evaluate ⟨recordLoader records, oracle, envKeys⟩ ctx (.byVariable x n selector) s)
      (∀ m, fits m → m = stdPattern ∨ ∃ y, again m y)
      fun y => c.Combines (fits y) (isTestPackage y = true ∧ ∃ m, fits m ∧ again m y) := by
  intro fits again
  let parties : Calculator UniverseTable NodeRef := ⟨recordLoader records, oracle, envKeys⟩
  let k : parties.loader.Service ctx.config.cancelled := recordService records ctx.config.cancelled
  have hload : loadRoots parties ctx.config [n] s = (.ok a, t) := by
    rw [← hrun, evaluate_package, hn]
  have hfits := loadRoots_name oracle envKeys hs ctx.config n ctx.config.tests
  have hcancelled : ctx.config.cancelled 0 = false := (hfits.1.1 ⟨a, t, hload⟩).1
  have hkeys : ∀ y, y ∈ a.keys ↔ fits y := by
    intro y
    have hy := hfits.2 a t hload y
    rwa [htests] at hy
  -- The load leaves the variables alone, and the loader in a state like before.
  have hconfig : ctx.config.cancelled = ctx.config.cancelled := rfl
  rcases loadRoots_eq k hconfig hs [n] with ⟨t', hload', ht, hbindings, -⟩
  have hsame := hload.symm.trans hload'
  rw [Prod.mk.injEq] at hsame
  rcases hsame with ⟨-, rfl⟩
  rw [evaluate_byVariable hselector hname hrun (hbindings ▸ hx)]
  have hnone : k.refusal = none := if_neg (Bool.not_eq_true _ ▸ hcancelled)
  have hids : ∀ id p, (ofRecords records ctx.config true).candidates.get? id = some p → p.id = id :=
    fun _ _ => Universe.id_of_get?_ofRecords
  have hmissing : (ofRecords records ctx.config true).missing a.sortedIds = [] ↔
      ∀ m, fits m → m = stdPattern ∨ ∃ y, again m y := by
    rw [Resolution.missing_eq_nil_iff hids]
    simp only [mem_sortedIds_iff, hkeys]
    rfl
  have hctx : ctx.cancelled = ctx.config.cancelled := rfl
  rcases testsOfSet_finds (k := k) (t := { t with bindings := t.bindings.insert x a }) hnone hctx ht
      c a with
    ⟨hnil, tests, u, hset, hmem⟩ | ⟨hsome, u, hset⟩
  · refine hasIds_of_ok hset (hmissing.1 hnil) fun y => ?_
    rw [Combinator.mem_keys_apply, hmem, hkeys]
    simp only [hkeys]
    rfl
  · exact hasIds_of_error hset fun hall => hsome (hmissing.2 hall)

/-! ### Ids -/

section

variable {config : LoadConfig} {m : String} {tests : Bool}

/-- What exists without tests exists with them. -/
theorem mem_keys_with_tests (h : m ∈ (ofRecords records config false).candidates.keys) :
    m ∈ (ofRecords records config true).candidates.keys := by
  rcases Universe.mem_keys_ofRecords_iff.1 h with ⟨r, hr, hexists, hid⟩
  exact Universe.mem_keys_ofRecords_iff.2 ⟨r, hr, (existsIn_without_tests_iff.1 hexists).1, hid⟩

theorem standsFor_iff_of_isIdName (h : IsIdName n) :
    (ofRecords records config tests).StandsFor n y ↔
      n ∈ (ofRecords records config tests).candidates.keys ∧ (y = n ∨ tests = true ∧
        y ∈ (ofRecords records config tests).candidates.keys ∧ isTestOf n y = true) := by
  rw [isIdName_iff] at h
  rw [Resolution.standsFor_iff, if_neg h.1, if_neg h.2]
  rfl

/-- Without tests an id stands for its own package alone, which is found again with them. -/
theorem eq_of_standsFor_of_isIdName (h : IsIdName n)
    (hm : (ofRecords records config false).StandsFor n m) :
    m = n ∧ (ofRecords records config true).StandsFor n n := by
  rcases (standsFor_iff_of_isIdName h).1 hm with ⟨hkey, hown | ⟨htests, -⟩⟩
  · exact ⟨hown, (standsFor_iff_of_isIdName h).2 ⟨mem_keys_with_tests hkey, .inl rfl⟩⟩
  · cases htests

/-- Looked up again, the package of an id brings what the id stands for with tests. -/
theorem exists_standsFor_again_iff (h : IsIdName n)
    (hm : (ofRecords records config false).StandsFor n m) :
    (∃ x, (ofRecords records config false).StandsFor n x ∧
      (ofRecords records config true).StandsFor x y) ↔
        (ofRecords records config true).StandsFor n y := by
  rcases eq_of_standsFor_of_isIdName h hm with ⟨rfl, -⟩
  constructor
  · rintro ⟨x, hx, hy⟩
    rwa [(eq_of_standsFor_of_isIdName h hx).1] at hy
  · exact fun hy => ⟨m, hm, hy⟩

/-- With tests, an id stands for what it stands for without them and for tests. -/
theorem standsFor_with_tests_iff (h : IsIdName n)
    (hm : (ofRecords records config false).StandsFor n m) :
    (ofRecords records config true).StandsFor n y ↔
      (ofRecords records config false).StandsFor n y ∨
        isTestPackage y = true ∧ (ofRecords records config true).StandsFor n y := by
  rcases eq_of_standsFor_of_isIdName h hm with ⟨rfl, hown⟩
  constructor
  · intro hy
    rcases ((standsFor_iff_of_isIdName h).1 hy).2 with rfl | ⟨-, -, htest⟩
    · exact .inl hm
    · exact .inr ⟨(isTestOf_iff.1 htest).1, hy⟩
  · rintro (hy | ⟨-, hy⟩)
    · rwa [(eq_of_standsFor_of_isIdName h hy).1]
    · exact hy

/-- What a name stands for without tests is found again with them, unless its id reads like a
    wildcard. -/
theorem standsFor_again (hwild : isWildcard m = false)
    (h : (ofRecords records config false).StandsFor n m) :
    m = stdPattern ∨ (ofRecords records config true).StandsFor m m := by
  by_cases hstd : m = stdPattern
  · exact .inl hstd
  · have hid : IsIdName m := isIdName_iff.2 ⟨hstd, Bool.eq_false_iff.1 hwild⟩
    exact .inr ((standsFor_iff_of_isIdName hid).2 ⟨mem_keys_with_tests h.mem_keys, .inl rfl⟩)

end

/-! ### Both ways -/

/-- Where tests are not wanted, and a name can be loaded, the selector for tests behind an id has
    the same ids as behind a variable that is bound to the id, with either sign and with none.

    Behind a wildcard, or the name of the standard library, it depends. With a minus sign it is so
    if and only if each package for which the name stands without tests is found again with them,
    and that is the case if no id reads like a wildcard. Without a sign it is so if and only if
    besides the name stands for something with tests, and of what is named like a test it stands
    for just the packages for which the ids of those packages stand. With a plus sign it is the
    same, if without tests the name stands for just what it stands for with them and what is not
    named like a test. -/
theorem evaluate_tests_both_ways (hname : Selection.ofName? name = some .test)
    (records : List PackageRecord) (history : List Question)
    (oracle : Option (Oracle UniverseTable)) (envKeys : List String) {ctx : Context}
    (htests : ctx.config.tests = false) {s : CalcState UniverseTable NodeRef}
    (hn : s.bindings.get? n = none) (hx : s.bindings.get? x = none) :
    let parties : Calculator UniverseTable NodeRef := ⟨recordLoader records, oracle, envKeys⟩
    let start := { s with loader := parties.loader.after history .empty }
    let agree selector := SameIds (evaluate parties ctx (.select (.package n) selector) start)
      (evaluate parties ctx (.byVariable x n selector) start)
    let fits tests := (ofRecords records ctx.config tests).StandsFor n
    let again := (ofRecords records ctx.config true).StandsFor
    let found := n = stdPattern ∨ ∃ y, fits true y
    let known := ∀ m, fits false m → m = stdPattern ∨ ∃ y, again m y
    let same := ∀ y, isTestPackage y = true → (fits true y ↔ ∃ m, fits false m ∧ again m y)
    let told := ∀ y, fits false y ↔ fits true y ∧ isTestPackage y = false
    (∃ a t, evaluate parties ctx (.package n) start = (.ok a, t)) →
      (IsIdName n → agree name ∧ agree ("+" ++ name) ∧ agree ("-" ++ name)) ∧
      (agree name ↔ found ∧ known ∧ same) ∧ (agree ("-" ++ name) ↔ known) ∧
      (told → (agree ("+" ++ name) ↔ known ∧ same)) ∧
      ((records.map PackageRecord.id).Nodup → found) ∧
      ((∀ r ∈ records, isWildcard r.id = false) → known) := by
  intro parties start agree fits again found known same told
  rintro ⟨a, t, hrun⟩
  have hs : start.loader.BuiltFrom records := UniverseTable.builtFrom_empty.after history
  have hloaded : ctx.config.cancelled 0 = false ∧ (n = stdPattern ∨ ∃ y, fits false y) := by
    have hload := (loadRoots_name oracle envKeys hs ctx.config n ctx.config.tests).1
    rw [htests] at hload
    refine hload.1 ⟨a, t, ?_⟩
    rw [← hrun, evaluate_package, hn, ← htests]
  have hplain : ∀ y, fits false y → isTestPackage y = false := fun y => isTestPackage_of_standsFor
  -- Each of the two runs has a set under a condition of its own.
  have hagree : ∀ {c selector}, Combinator.ofText selector = (c, name) → (agree selector ↔
      (n = stdPattern ∨ ∃ y, fits c.wantsTests y) ∧ known ∧ ∀ y, c.Loads fits y ↔
        c.Combines (fits false y) (isTestPackage y = true ∧ ∃ m, fits false m ∧ again m y)) :=
    fun hselector => sameIds_iff (hasIds_directly hs hn hloaded.1 hselector hname)
      (hasIds_byVariable hs hn hx htests hselector hname hrun)
  have hkeep : agree name ↔ found ∧ known ∧ same := by
    refine (hagree (Combinator.ofText_of_ofName? hname)).trans ?_
    refine and_congr_right fun _ => and_congr_right fun _ => forall_congr' fun y => ?_
    change (fits true y ∧ isTestPackage y = true ↔ isTestPackage y = true ∧ _) ↔ _
    rw [and_comm, and_congr_right_iff]
  have hremove : agree ("-" ++ name) ↔ known := by
    refine (hagree (Combinator.ofText_minus name)).trans ⟨fun h => h.2.1, fun h => ?_⟩
    refine ⟨hloaded.2, h, fun y => (and_iff_left_of_imp fun hy htest => ?_).symm⟩
    rw [hplain y hy] at htest
    exact Bool.false_ne_true htest.1
  have hplus := hagree (Combinator.ofText_plus name)
  have hadd : agree ("+" ++ name) ↔ found ∧ known ∧ ∀ y, fits true y ↔ fits false y ∨
      isTestPackage y = true ∧ ∃ m, fits false m ∧ again m y := hplus
  refine ⟨fun hid => ?_, hkeep, hremove, fun htold => ?_, fun hids => ?_, fun hwild m hm => ?_⟩
  · -- The variable has one member, and that is looked up by the name that is loaded otherwise.
    rcases hloaded.2.resolve_left hid.1 with ⟨m, hm⟩
    have hagain : ∀ y, (∃ m, fits false m ∧ again m y) ↔ fits true y :=
      fun y => exists_standsFor_again_iff hid hm
    have hfound : found := .inr ⟨n, (eq_of_standsFor_of_isIdName hid hm).2⟩
    have hknown : known := by
      intro y hy
      rcases eq_of_standsFor_of_isIdName hid hy with ⟨rfl, hown⟩
      exact .inr ⟨y, hown⟩
    refine ⟨hkeep.2 ⟨hfound, hknown, fun y _ => (hagain y).symm⟩,
      hadd.2 ⟨hfound, hknown, fun y => ?_⟩, hremove.2 hknown⟩
    rw [hagain]
    exact standsFor_with_tests_iff hid hm
  · have hfound : found := hloaded.2.imp_right fun ⟨y, hy⟩ => ⟨y, ((htold y).1 hy).1⟩
    rw [hadd, and_iff_right hfound]
    refine and_congr_right fun _ => forall_congr' fun y => ?_
    have hy := htold y
    grind
  · exact hloaded.2.imp_right fun ⟨y, hy⟩ => ⟨y, ((standsFor_without_tests_iff hids).1 hy).1⟩
  · rcases Universe.mem_keys_ofRecords_iff.1 hm.mem_keys with ⟨r, hr, -, rfl⟩
    exact (standsFor_again (hwild r hr) hm).imp_right fun hagain => ⟨r.id, hagain⟩

/-- A package with a test, and a test of a package that is not there. -/
def strayTests : List PackageRecord := [{ id := "a" }, { id := "a_test" }, { id := "b_test" }]

/-- The package by its id has the same tests in both ways. So has everything if tests are taken away
    from it, since without tests around there are none. -/
theorem evaluate_tests_both_ways_stray :
    let parties : Calculator UniverseTable NodeRef := { loader := recordLoader strayTests }
    let s : CalcState UniverseTable NodeRef := { loader := .empty }
    SameIds (evaluate parties {} (.select (.package "a") "+test") s)
        (evaluate parties {} (.byVariable "x" "a" "+test") s) ∧
      SameIds (evaluate parties {} (.select (.package "...") "-test") s)
        (evaluate parties {} (.byVariable "x" "..." "-test") s) := by
  intro parties s
  have hname : Selection.ofName? "test" = some .test := by decide
  have hpackage : idsOf (evaluate parties {} (.package "a") s) = some ["a"] := by decide +kernel
  have hall : idsOf (evaluate parties {} (.package "...") s) = some ["a"] := by decide +kernel
  rcases exists_of_idsOf hpackage with ⟨a, t, ha, -⟩
  rcases exists_of_idsOf hall with ⟨b, u, hb, -⟩
  have hid : IsIdName "a" := isIdName_iff.2 (by decide)
  rcases @evaluate_tests_both_ways "a" "x" "test" hname strayTests [] none defaultEnvKeys {} rfl s
    rfl rfl ⟨a, t, ha⟩ with ⟨hboth, -⟩
  rcases @evaluate_tests_both_ways "..." "x" "test" hname strayTests [] none defaultEnvKeys {} rfl s
    rfl rfl ⟨b, u, hb⟩ with ⟨-, -, hremoved, -, -, hknown⟩
  exact ⟨(hboth hid).2.1, hremoved.2 (hknown (by decide))⟩

/-- A wildcard that is loaded for tests has all that fit it, whatever they are tests of, and no
    others. By way of a variable there are the tests of the packages that fit the wildcard: not
    those of a package that is not there, but those that do not fit themselves. -/
theorem evaluate_tests_both_ways_differ :
    let parties : Calculator UniverseTable NodeRef := { loader := recordLoader strayTests }
    let s : CalcState UniverseTable NodeRef := { loader := .empty }
    let direct n := evaluate parties {} (.select (.package n) "test") s
    let byVariable n := evaluate parties {} (.byVariable "x" n "test") s
    (idsOf (direct "...") = some ["a_test", "b_test"] ∧
        idsOf (byVariable "...") = some ["a_test"] ∧ ¬ SameIds (direct "...") (byVariable "...")) ∧
      idsOf (direct "a...") = some [] ∧ idsOf (byVariable "a...") = some ["a_test"] ∧
        ¬ SameIds (direct "a...") (byVariable "a...") := by
  intro parties s direct byVariable
  -- Runs that have different ids are told apart by one of them.
  have hdiffer : ∀ {n ids ids'}, idsOf (direct n) = some ids → idsOf (byVariable n) = some ids' →
      (∃ y, ¬ (y ∈ ids ↔ y ∈ ids')) → ¬ SameIds (direct n) (byVariable n) := by
    rintro n ids ids' hdirect hvariable ⟨y, hy⟩ ⟨a, t, b, u, ha, hb, hsame⟩
    rw [ha] at hdirect
    rw [hb] at hvariable
    rcases Option.some.inj hdirect
    rcases Option.some.inj hvariable
    exact hy (hsame y)
  have hall : idsOf (direct "...") = some ["a_test", "b_test"] := by decide +kernel
  have hall' : idsOf (byVariable "...") = some ["a_test"] := by decide +kernel
  have hbelow : idsOf (direct "a...") = some [] := by decide +kernel
  have hbelow' : idsOf (byVariable "a...") = some ["a_test"] := by decide +kernel
  exact ⟨⟨hall, hall', hdiffer hall hall' ⟨"b_test", by decide⟩⟩, hbelow, hbelow',
    hdiffer hbelow hbelow' ⟨"a_test", by decide⟩⟩

end PackageAlgebra
