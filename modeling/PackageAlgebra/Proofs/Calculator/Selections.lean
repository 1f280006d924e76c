import PackageAlgebra.Proofs.Calculator.SideBySide
import PackageAlgebra.Proofs.Load.TestNames
import PackageAlgebra.Proofs.Package.Contents

/-!
# Signs of Selectors

What a sign before a selector makes of the operand and of what is selected.

With a plus sign a selector has the operand together with the selection, and with a minus sign the
operand without it. Both are made from the two sets, whatever the selector is; only the selector
for modules ignores its sign, since it has its operand in its result anyway.

Tests are different where the operand is a name that is loaded. Nothing is selected then and
nothing is combined: the name is loaded again, with tests for a plus sign and without them for a
minus sign. These loads know a test package by its flag or by its id, whereas the selector without
a sign goes by the id. So a package that is flagged as a test and is not named like one comes in
with a plus sign, and goes with a minus sign, although it is not selected. Besides, a load without
tests fails where nothing is left.

## Main definitions

* `Adds`, `Removes`: A selector obeys its sign.
* `TestsOfLoaded`: What the selector for tests has of a name that is loaded.

## Theorems

* `Selection.apply_combinator`: A selection is combined with its operand.
* `evaluate_combined`: So is what a selector has, unless it loads tests of a name.
* `loadRoots_name`, `testsOfLoaded`: What is loaded for a name.
* `TestsOfLoaded.adds_iff`, `TestsOfLoaded.removes_iff`: When this obeys the signs.
* `evaluate_signed_selectors`: Which selectors obey their signs.
-/

namespace PackageAlgebra

open Calc

variable {σ ρ : Type} {name : String} {selection : Selection}

/-! ### Signs -/

/-- A name of a selection has no sign. -/
theorem Combinator.ofText_of_ofName? (h : Selection.ofName? name = some selection) :
    Combinator.ofText name = (.keep, name) := by
  let names := ["test", "all", "mod", "module", "import", "imp", "source", "nosource", "main"]
  have hunsigned : ∀ c ∈ ['+', '-'], ∀ text ∈ names, c ∉ text.toList := by
    intro c hc
    rcases List.mem_pair.1 hc with rfl | rfl <;> decide
  have hname : Text.lower name ∈ names := by
    by_contra hother
    simp only [names, List.mem_cons, List.not_mem_nil, or_false, not_or] at hother
    unfold Selection.ofName? at h
    simp only [hother, or_false, if_false, reduceCtorEq] at h
  -- A sign would be left in lower case.
  have hnot : ∀ c ∈ ['+', '-'], c ∉ name.toList := by
    intro c hc hmem
    have hkept : c ∈ (Text.lower name).toList := by
      rw [Text.lower, String.toList_ofList]
      rcases List.mem_pair.1 hc with rfl | rfl <;>
        exact Text.mem_lowerChars (by decide) (by decide) [] hmem
    exact hunsigned c hc _ hname hkept
  unfold ofText
  split
  · next rest heq => exact absurd (heq ▸ List.mem_cons_self) (hnot '+' (by decide))
  · next rest heq => exact absurd (heq ▸ List.mem_cons_self) (hnot '-' (by decide))
  · rw [String.ofList_toList]

theorem Combinator.ofText_plus (name : String) :
    Combinator.ofText ("+" ++ name) = (.add, name) := by
  unfold ofText
  rw [String.toList_append]
  exact congrArg (Prod.mk add) String.ofList_toList

theorem Combinator.ofText_minus (name : String) :
    Combinator.ofText ("-" ++ name) = (.remove, name) := by
  unfold ofText
  rw [String.toList_append]
  exact congrArg (Prod.mk remove) String.ofList_toList

/-- A selection is combined with its operand by the sign before it. -/
theorem Selection.apply_combinator (h : selection ≠ .modules) (catalog : Catalog ρ) (c : Combinator)
    (a : PackageSet ρ) :
    selection.apply catalog c a = c.apply a (selection.apply catalog .keep a) := by
  cases selection with
  | modules => exact absurd rfl h
  | _ => rfl

/-! ### Selectors that are combined -/

section

variable {parties : Calculator σ ρ} {ctx : Context} {operand : Expr} {selector : String}
  {s t u : CalcState σ ρ} {a b : PackageSet ρ} {c : Combinator}

/-- The tests of the members of a set are combined with the set. -/
theorem testsOfSet_combined (h : testsOfSet parties ctx .keep a t = (.ok b, u)) (c : Combinator) :
    testsOfSet parties ctx c a t = (.ok (c.apply a b), u) := by
  unfold testsOfSet at h ⊢
  by_cases hempty : a.isEmpty = true
  · rw [if_pos hempty] at h ⊢
    cases h
    rfl
  · rw [if_neg hempty] at h ⊢
    rcases hload : loadRoots parties { ctx.config with tests := true } a.sortedIds t with
      ⟨e | found, v⟩
    · rw [bind_error hload] at h
      cases h
    · rw [bind_ok hload] at h ⊢
      cases h
      rfl

/-- The selector for tests looks at the value of its operand, unless that is a name to be loaded. -/
theorem evaluate_tests_of_value
    (h : Combinator.ofText selector = (c, name)) (htest : Selection.ofName? name = some .test)
    (hbound : ∀ n, operand = .package n → s.bindings.get? n ≠ none)
    (hrun : evaluate parties ctx operand s = (.ok a, t)) :
    evaluate parties ctx (.select operand selector) s = testsOfSet parties ctx c a t := by
  rw [evaluate.eq_def]
  simp only [h, htest]
  cases operand with
  | package n =>
      rw [evaluate_package] at hrun
      cases hvalue : s.bindings.get? n with
      | none => exact absurd hvalue (hbound n rfl)
      | some first =>
          rw [hvalue] at hrun
          cases hrun
          dsimp only
          rw [bind_ok (lookup?_apply n), hvalue]
  | _ => exact bind_ok hrun

/-- The selector for tests loads a name again. -/
theorem evaluate_tests_of_name {n : String} (h : Combinator.ofText selector = (c, name))
    (htest : Selection.ofName? name = some .test) (hnone : s.bindings.get? n = none) :
    evaluate parties ctx (.select (.package n) selector) s = testsOfName parties ctx n c s := by
  rw [evaluate.eq_def]
  simp only [h, htest]
  rw [bind_ok (lookup?_apply n), hnone]

/-- What a selector has under a sign is combined from its operand and from what it has without one,
    unless it is a name of which tests are loaded. -/
theorem evaluate_combined (hname : Selection.ofName? name = some selection)
    (hmodules : selection ≠ .modules)
    (hbound : selection = .test → ∀ n, operand = .package n → s.bindings.get? n ≠ none)
    (ha : evaluate parties ctx operand s = (.ok a, t))
    (hb : evaluate parties ctx (.select operand name) s = (.ok b, u))
    (h : Combinator.ofText selector = (c, name)) :
    evaluate parties ctx (.select operand selector) s = (.ok (c.apply a b), u) := by
  have hplain := Combinator.ofText_of_ofName? hname
  by_cases htest : selection = .test
  · subst htest
    rw [evaluate_tests_of_value hplain hname (hbound rfl) ha] at hb
    rw [evaluate_tests_of_value h hname (hbound rfl) ha]
    exact testsOfSet_combined hb c
  · have hplainName : Selection.ofName? (Combinator.ofText name).2 = some selection := by
      rw [hplain, hname]
    have hsignedName : Selection.ofName? (Combinator.ofText selector).2 = some selection := by
      rw [h, hname]
    rw [evaluate_selection hplainName htest, bind_ok ha, bind_ok catalog_apply] at hb
    rw [evaluate_selection hsignedName htest, bind_ok ha, bind_ok catalog_apply, h,
      Selection.apply_combinator hmodules]
    cases hb
    rw [hplain]
    rfl

end

/-! ### Selectors that obey their signs -/

/-- Behind a sign a selector has the ids that a rule makes of those of the operand and of those that
    the selector has without the sign. -/
def Obeys (sign : String) (rule : Prop → Prop → Prop) (parties : Calculator σ ρ) (ctx : Context)
    (operand : Expr) (name : String) (s : CalcState σ ρ) : Prop :=
  ∀ a b t u, evaluate parties ctx operand s = (.ok a, t) →
    evaluate parties ctx (.select operand name) s = (.ok b, u) →
      ∃ c v, evaluate parties ctx (.select operand (sign ++ name)) s = (.ok c, v) ∧
        ∀ x, x ∈ c.keys ↔ rule (x ∈ a.keys) (x ∈ b.keys)

/-- With a plus sign, a selector has the ids of its operand together with those that it has
    without one. -/
def Adds (parties : Calculator σ ρ) (ctx : Context) (operand : Expr) (name : String)
    (s : CalcState σ ρ) : Prop :=
  Obeys "+" (fun inOperand selected => inOperand ∨ selected) parties ctx operand name s

/-- With a minus sign, a selector has the ids of its operand that it does not have without one. -/
def Removes (parties : Calculator σ ρ) (ctx : Context) (operand : Expr) (name : String)
    (s : CalcState σ ρ) : Prop :=
  Obeys "-" (fun inOperand selected => inOperand ∧ ¬ selected) parties ctx operand name s

section

variable {sign : String} {rule : Prop → Prop → Prop} {parties : Calculator σ ρ} {ctx : Context}
  {operand : Expr} {s t u : CalcState σ ρ} {a b : PackageSet ρ}

/-- Evaluations have one outcome, so a rule is obeyed if the one run with the sign obeys it. -/
theorem obeys_iff (ha : evaluate parties ctx operand s = (.ok a, t))
    (hb : evaluate parties ctx (.select operand name) s = (.ok b, u)) :
    Obeys sign rule parties ctx operand name s ↔
      ∃ c v, evaluate parties ctx (.select operand (sign ++ name)) s = (.ok c, v) ∧
        ∀ x, x ∈ c.keys ↔ rule (x ∈ a.keys) (x ∈ b.keys) := by
  constructor
  · exact fun h => h a b t u ha hb
  · intro h a' b' t' u' ha' hb'
    cases ha.symm.trans ha'
    cases hb.symm.trans hb'
    exact h

/-- The ids that a run has, if it has a set. -/
def idsOf (run : Except Failure (PackageSet ρ) × CalcState σ ρ) : Option (List String) :=
  run.1.toOption.map OrderedMap.keys

theorem exists_of_idsOf {run : Except Failure (PackageSet ρ) × CalcState σ ρ} {ids : List String}
    (h : idsOf run = some ids) : ∃ a t, run = (.ok a, t) ∧ a.keys = ids := by
  rcases run with ⟨e | a, t⟩
  · cases h
  · exact ⟨a, t, rfl, Option.some.inj h⟩

/-- A rule that is obeyed, by the ids of three runs. -/
theorem Obeys.mem_iff (h : Obeys sign rule parties ctx operand name s)
    {ids selected signed : List String}
    (ha : idsOf (evaluate parties ctx operand s) = some ids)
    (hb : idsOf (evaluate parties ctx (.select operand name) s) = some selected)
    (hc : idsOf (evaluate parties ctx (.select operand (sign ++ name)) s) = some signed)
    (x : String) : x ∈ signed ↔ rule (x ∈ ids) (x ∈ selected) := by
  rcases exists_of_idsOf ha with ⟨a, t, hrun, rfl⟩
  rcases exists_of_idsOf hb with ⟨b, u, hplain, rfl⟩
  rcases exists_of_idsOf hc with ⟨c, v, hsigned, rfl⟩
  rcases (obeys_iff hrun hplain).1 h with ⟨c', v', hrule, hmem⟩
  cases hsigned.symm.trans hrule
  exact hmem x

end

/-! ### Tests of a name that is loaded -/

variable {records : List PackageRecord} {config : LoadConfig}
  {oracle : Option (Oracle UniverseTable)} {envKeys : List String}
  {s : CalcState UniverseTable NodeRef} {n x : String}

/-- A name is loaded if it stands for anything, with or without tests, and the ids are those for
    which it stands. -/
theorem loadRoots_name (oracle : Option (Oracle UniverseTable)) (envKeys : List String)
    (hs : s.loader.BuiltFrom records) (config : LoadConfig) (n : String) (tests : Bool) :
    let parties : Calculator UniverseTable NodeRef := ⟨recordLoader records, oracle, envKeys⟩
    let run := loadRoots parties { config with tests := tests } [n] s
    let fits := (Resolution.ofRecords records config tests).StandsFor n
    ((∃ a t, run = (.ok a, t)) ↔ config.cancelled 0 = false ∧ (n = stdPattern ∨ ∃ x, fits x)) ∧
      ∀ a t, run = (.ok a, t) → ∀ x, x ∈ a.keys ↔ fits x := by
  intro parties run fits
  let k : parties.loader.Service config.cancelled := recordService records config.cancelled
  have hcancelled : { config with tests := tests }.cancelled = config.cancelled := rfl
  have hload := finds_loadRoots (k := k) hcancelled [n] s hs rfl
  have hrefusal : (recordService records config.cancelled).refusal = none ↔
      config.cancelled 0 = false := by
    change (if config.cancelled 0 = true then some LoadError.cancelled else none) = none ↔ _
    rw [ite_eq_right_iff, ← Bool.not_eq_true]
    exact forall_congr' fun _ => iff_of_false nofun id
  rw [hrefusal, List.forall_mem_singleton, Resolution.isSome_matchesOf_iff] at hload
  simp only [List.mem_singleton, exists_eq_left] at hload
  rcases hload with ⟨t, -, -, ⟨hpossible, a, hrun, hkeys⟩ | ⟨himpossible, cause, hrun⟩⟩
  · refine ⟨iff_of_true ⟨a, t, hrun⟩ hpossible, fun a' t' hrun' => ?_⟩
    cases hrun.symm.trans hrun'
    exact hkeys
  · refine ⟨iff_of_false ?_ himpossible, fun a' t' hrun' => ?_⟩
    · rintro ⟨a', t', hrun'⟩
      cases hrun.symm.trans hrun'
    · cases hrun.symm.trans hrun'

/-- Among nodes that are filed under their ids, the test packages are told by the ids. -/
theorem mem_keys_tests {a : PackageSet ρ} {P : Node ρ → Prop} (ha : a.Filed P) :
    x ∈ a.tests.keys ↔ x ∈ a.keys ∧ isTestPackage x = true := by
  have hids : a.tests = a.filter fun id _ => isTestPackage id :=
    OrderedMap.eq_of_entries_eq (List.filter_congr fun e he => congrArg isTestPackage (ha e he).1)
  rw [hids, OrderedMap.keys_filter, List.mem_filter]

/-- What is loaded is filed under its ids. -/
theorem filed_of_loadRoots {parties : Calculator σ ρ} {names : List String} {a : PackageSet ρ}
    {s t : CalcState σ ρ} (h : loadRoots parties config names s = (.ok a, t)) :
    a.Filed fun _ => True := by
  unfold loadRoots at h
  rcases hload : loadNodes parties config names s with ⟨e | roots, u⟩
  · rw [bind_error hload] at h
    cases h
  · rw [bind_ok hload] at h
    cases h
    exact .ofRoots fun _ _ => trivial

/-- What the selector for tests has of a name that is loaded, with either sign and with none, by
    what the name stands for with and without tests. -/
structure TestsOfLoaded (parties : Calculator σ ρ) (ctx : Context) (n name : String)
    (s : CalcState σ ρ) (fits : Bool → String → Prop) (a b : PackageSet ρ) : Prop where
  -- The name by itself has tests where they are wanted.
  operand : ∀ x, x ∈ a.keys ↔ fits ctx.config.tests x
  -- Without a sign there are only those that are named like tests.
  selected : ∀ x, x ∈ b.keys ↔ fits true x ∧ isTestPackage x = true
  -- With a plus sign there is all that is loaded with tests.
  added : ∃ c v, evaluate parties ctx (.select (.package n) ("+" ++ name)) s = (.ok c, v) ∧
    ∀ x, x ∈ c.keys ↔ fits true x
  -- With a minus sign there may be nothing to be loaded.
  removable : (∃ c v, evaluate parties ctx (.select (.package n) ("-" ++ name)) s = (.ok c, v)) ↔
    n = stdPattern ∨ ∃ x, fits false x
  removed : ∀ c v, evaluate parties ctx (.select (.package n) ("-" ++ name)) s = (.ok c, v) →
    ∀ x, x ∈ c.keys ↔ fits false x

/-- A load without tests is what a minus sign makes of a name, and one with tests the rest. -/
theorem testsOfLoaded {ctx : Context} (hs : s.loader.BuiltFrom records)
    (hnone : s.bindings.get? n = none) (hname : Selection.ofName? name = some .test)
    {a b : PackageSet NodeRef} {t u : CalcState UniverseTable NodeRef}
    (ha : evaluate ⟨recordLoader records, oracle, envKeys⟩ ctx (.package n) s = (.ok a, t))
    (hb : evaluate ⟨recordLoader records, oracle, envKeys⟩ ctx (.select (.package n) name) s =
      (.ok b, u)) :
    TestsOfLoaded ⟨recordLoader records, oracle, envKeys⟩ ctx n name s
      (fun tests => (Resolution.ofRecords records ctx.config tests).StandsFor n) a b := by
  have hload := loadRoots_name oracle envKeys hs ctx.config n
  rw [evaluate_package, hnone] at ha
  rw [evaluate_tests_of_name (Combinator.ofText_of_ofName? hname) hname hnone] at hb
  have hends : ctx.config.cancelled 0 = false := ((hload ctx.config.tests).1.1 ⟨a, t, ha⟩).1
  -- Without a sign, what is loaded with tests is looked through for tests.
  change (loadRoots _ _ [n] >>= _) s = _ at hb
  rcases hfound : loadRoots ⟨recordLoader records, oracle, envKeys⟩
    { ctx.config with tests := true } [n] s with ⟨e | found, v⟩
  · rw [bind_error hfound] at hb
    cases hb
  rw [bind_ok hfound] at hb
  cases hb
  have hkeys := (hload true).2 found u hfound
  exact {
    operand := (hload ctx.config.tests).2 a t ha
    selected := fun x => by rw [mem_keys_tests (filed_of_loadRoots hfound), hkeys x]
    added := by
      rw [evaluate_tests_of_name (Combinator.ofText_plus name) hname hnone]
      exact ⟨found, u, hfound, hkeys⟩
    removable := by
      rw [evaluate_tests_of_name (Combinator.ofText_minus name) hname hnone]
      exact (hload false).1.trans (and_iff_right hends)
    removed := by
      rw [evaluate_tests_of_name (Combinator.ofText_minus name) hname hnone]
      exact (hload false).2 }

namespace TestsOfLoaded

variable {parties : Calculator σ ρ} {ctx : Context} {s t u : CalcState σ ρ}
  {fits : Bool → String → Prop} {a b : PackageSet ρ}

/-- Tests come in as they should where they are there anyway, or where a load without tests leaves
    out just what is named like a test. -/
theorem adds_iff (h : TestsOfLoaded parties ctx n name s fits a b)
    (ha : evaluate parties ctx (.package n) s = (.ok a, t))
    (hb : evaluate parties ctx (.select (.package n) name) s = (.ok b, u))
    (hplain : ∀ x, fits false x → isTestPackage x = false) :
    Adds parties ctx (.package n) name s ↔ ctx.config.tests = true ∨
      ∀ x, fits false x ↔ fits true x ∧ isTestPackage x = false := by
  rcases h.added with ⟨c, v, hrun, hkeys⟩
  have hadds : Adds parties ctx (.package n) name s ↔
      ∀ x, fits true x ↔ fits ctx.config.tests x ∨ fits true x ∧ isTestPackage x = true := by
    refine (obeys_iff ha hb).trans ?_
    constructor
    · rintro ⟨c', v', hrun', hkeys'⟩ x
      cases hrun.symm.trans hrun'
      exact (hkeys x).symm.trans ((hkeys' x).trans (or_congr (h.operand x) (h.selected x)))
    · intro hall
      refine ⟨c, v, hrun, fun x => ?_⟩
      rw [hkeys, hall, h.operand, h.selected]
  rw [hadds]
  cases htests : ctx.config.tests with
  | true => exact iff_of_true (fun x => (or_iff_left_of_imp And.left).symm) (.inl rfl)
  | false =>
      rw [or_iff_right Bool.false_ne_true]
      refine forall_congr' fun x => ?_
      have hx := hplain x
      grind

/-- Tests go as they should where they are not there anyway, or where a load without tests leaves
    something, and leaves out just what is named like a test. -/
theorem removes_iff (h : TestsOfLoaded parties ctx n name s fits a b)
    (ha : evaluate parties ctx (.package n) s = (.ok a, t))
    (hb : evaluate parties ctx (.select (.package n) name) s = (.ok b, u))
    (hfound : n = stdPattern ∨ ∃ x, fits ctx.config.tests x)
    (hplain : ∀ x, fits false x → isTestPackage x = false) :
    Removes parties ctx (.package n) name s ↔ ctx.config.tests = false ∨
      (n = stdPattern ∨ ∃ x, fits false x) ∧
        ∀ x, fits false x ↔ fits true x ∧ isTestPackage x = false := by
  have hremoves : Removes parties ctx (.package n) name s ↔
      (n = stdPattern ∨ ∃ x, fits false x) ∧ ∀ x, fits false x ↔
        fits ctx.config.tests x ∧ ¬(fits true x ∧ isTestPackage x = true) := by
    refine (obeys_iff ha hb).trans ?_
    rw [← h.removable]
    constructor
    · rintro ⟨c, v, hrun, hkeys⟩
      refine ⟨⟨c, v, hrun⟩, fun x => ?_⟩
      rw [← h.removed c v hrun, hkeys, h.operand, h.selected]
    · rintro ⟨⟨c, v, hrun⟩, hall⟩
      refine ⟨c, v, hrun, fun x => ?_⟩
      rw [h.removed c v hrun, hall, h.operand, h.selected]
  rw [hremoves]
  cases htests : ctx.config.tests with
  | true =>
      have hnot : ¬ true = false := nofun
      rw [or_iff_right hnot]
      refine and_congr_right fun _ => forall_congr' fun x => ?_
      grind
  | false =>
      rw [htests] at hfound
      refine iff_of_true ⟨hfound, fun x => ?_⟩ (.inl rfl)
      have hx := hplain x
      grind

end TestsOfLoaded

/-- Every selector but that for modules obeys its signs, whatever the loader and the state of the
    evaluation are, unless it is the selector for tests behind a name that is loaded.

    Such a name stands for some packages with tests and for some without them. Where both the name
    and its tests have a set, with a plus sign there is what the name stands for with tests, and
    with a minus sign what it stands for without them, as long as there is anything. So tests come
    in as they should if they are there anyway, or if without tests the name stands for just what
    it stands for with them and what is not named like a test. Tests go as they should if they are
    not there anyway, or if this is so and the name stands for something. And it is so, if ids are
    different, unless a package that the name stands for is flagged as a test and not named like
    one. -/
theorem evaluate_signed_selectors (hname : Selection.ofName? name = some selection)
    (hmodules : selection ≠ .modules) :
    (∀ {σ ρ : Type} (parties : Calculator σ ρ) (ctx : Context) (operand : Expr)
        (s : CalcState σ ρ),
      (selection = .test → ∀ n, operand = .package n → s.bindings.get? n ≠ none) →
        Adds parties ctx operand name s ∧ Removes parties ctx operand name s) ∧
    (selection = .test → ∀ (records : List PackageRecord) (history : List Question)
        (ctx : Context) (oracle : Option (Oracle UniverseTable)) (envKeys : List String)
        (s : CalcState UniverseTable NodeRef) (n : String), s.bindings.get? n = none →
      let parties : Calculator UniverseTable NodeRef := ⟨recordLoader records, oracle, envKeys⟩
      let start := { s with loader := parties.loader.after history .empty }
      let fits (tests : Bool) := (Resolution.ofRecords records ctx.config tests).StandsFor n
      let told := ∀ x, fits false x ↔ fits true x ∧ isTestPackage x = false
      ((records.map PackageRecord.id).Nodup →
        (told ↔ ∀ r ∈ records, fits true r.id → r.test = true → isTestPackage r.id = true)) ∧
      ∀ a b t u, evaluate parties ctx (.package n) start = (.ok a, t) →
        evaluate parties ctx (.select (.package n) name) start = (.ok b, u) →
          TestsOfLoaded parties ctx n name start fits a b ∧
          (Adds parties ctx (.package n) name start ↔ ctx.config.tests = true ∨ told) ∧
          (Removes parties ctx (.package n) name start ↔ ctx.config.tests = false ∨
            (n = stdPattern ∨ ∃ x, fits false x) ∧ told)) := by
  refine ⟨?_, ?_⟩
  · intro σ ρ parties ctx operand s hbound
    refine ⟨fun a b t u ha hb => ?_, fun a b t u ha hb => ?_⟩
    · exact ⟨_, _, evaluate_combined hname hmodules hbound ha hb (Combinator.ofText_plus name),
        fun x => PackageSet.mem_keys_union⟩
    · exact ⟨_, _, evaluate_combined hname hmodules hbound ha hb (Combinator.ofText_minus name),
        fun x => PackageSet.mem_keys_subtract⟩
  · rintro rfl records history ctx oracle envKeys s n hnone parties start fits told
    have hbuilt : start.loader.BuiltFrom records := UniverseTable.builtFrom_empty.after history
    refine ⟨forall_standsFor_iff_flagged, fun a b t u ha hb => ?_⟩
    have htests := testsOfLoaded hbuilt hnone hname ha hb
    have hplain : ∀ x, fits false x → isTestPackage x = false :=
      fun x => isTestPackage_of_standsFor
    have hfound : n = stdPattern ∨ ∃ x, fits ctx.config.tests x := by
      rw [evaluate_package, hnone] at ha
      exact ((loadRoots_name oracle envKeys hbuilt ctx.config n ctx.config.tests).1.1 ⟨a, t, ha⟩).2
    exact ⟨htests, htests.adds_iff ha hb hplain, htests.removes_iff ha hb hfound hplain⟩

/-- A package and a test package that is named like one. -/
def withNamedTest : List PackageRecord := [{ id := "a" }, { id := "a_test", test := true }]

/-- A test package that is named like one comes in with a plus sign, as it is selected without
    one. -/
theorem evaluate_signed_selectors_named :
    let parties : Calculator UniverseTable NodeRef := { loader := recordLoader withNamedTest }
    let s : CalcState UniverseTable NodeRef := { loader := .empty }
    let ids (e : Expr) := idsOf (evaluate parties {} e s)
    ids (.package "...") = some ["a"] ∧ ids (.select (.package "...") "test") = some ["a_test"] ∧
      ids (.select (.package "...") "+test") = some ["a", "a_test"] ∧
      Adds parties {} (.package "...") "test" s := by
  intro parties s ids
  have hoperand : ids (.package "...") = some ["a"] := by decide +kernel
  have hselected : ids (.select (.package "...") "test") = some ["a_test"] := by decide +kernel
  have hadded : ids (.select (.package "...") "+test") = some ["a", "a_test"] := by decide +kernel
  refine ⟨hoperand, hselected, hadded, ?_⟩
  rcases exists_of_idsOf hoperand with ⟨a, t, ha, -⟩
  rcases exists_of_idsOf hselected with ⟨b, u, hb, -⟩
  have hname : Selection.ofName? "test" = some .test := by decide
  rcases (evaluate_signed_selectors hname (by decide)).2 rfl withNamedTest [] {} none
    defaultEnvKeys s "..." rfl with ⟨htold, hsigned⟩
  have hflags : ∀ r ∈ withNamedTest, r.test = true → isTestPackage r.id = true := by decide
  exact (hsigned a b t u ha hb).2.1.2
    (.inr ((htold (by decide)).2 fun r hr _ hflag => hflags r hr hflag))

/-- A package and a test package that is not named like one. -/
def withFlaggedTest : List PackageRecord := [{ id := "a" }, { id := "checks", test := true }]

/-- A test package that is flagged as one, and not named like one, is not selected. It comes in with
    a plus sign nevertheless, and where there are tests it goes with a minus sign. -/
theorem evaluate_signed_selectors_flagged :
    let parties : Calculator UniverseTable NodeRef := { loader := recordLoader withFlaggedTest }
    let s : CalcState UniverseTable NodeRef := { loader := .empty }
    let ids (ctx : Context) (e : Expr) := idsOf (evaluate parties ctx e s)
    let tests : Context := { tags := ["test=1"] }
    (ids {} (.package "...") = some ["a"] ∧ ids {} (.select (.package "...") "test") = some [] ∧
        ids {} (.select (.package "...") "+test") = some ["a", "checks"] ∧
        ¬ Adds parties {} (.package "...") "test" s) ∧
      ids tests (.package "...") = some ["a", "checks"] ∧
      ids tests (.select (.package "...") "test") = some [] ∧
      ids tests (.select (.package "...") "-test") = some ["a"] ∧
      ¬ Removes parties tests (.package "...") "test" s := by
  intro parties s ids tests
  have hoperand : ids {} (.package "...") = some ["a"] := by decide +kernel
  have hselected : ids {} (.select (.package "...") "test") = some [] := by decide +kernel
  have hadded : ids {} (.select (.package "...") "+test") = some ["a", "checks"] := by
    decide +kernel
  have hoperand' : ids tests (.package "...") = some ["a", "checks"] := by decide +kernel
  have hselected' : ids tests (.select (.package "...") "test") = some [] := by decide +kernel
  have hremoved : ids tests (.select (.package "...") "-test") = some ["a"] := by decide +kernel
  refine ⟨⟨hoperand, hselected, hadded, fun hadds => ?_⟩, hoperand', hselected', hremoved,
    fun hremoves => ?_⟩
  · exact absurd (hadds.mem_iff hoperand hselected hadded "checks") (by decide)
  · exact absurd (hremoves.mem_iff hoperand' hselected' hremoved "checks") (by decide)

end PackageAlgebra
