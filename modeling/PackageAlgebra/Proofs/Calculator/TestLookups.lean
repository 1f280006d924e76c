import PackageAlgebra.Proofs.Calculator.Origins
import PackageAlgebra.Proofs.Calculator.Selections
import PackageAlgebra.Proofs.Calculator.Steady
import PackageAlgebra.Proofs.Load.Fitting
import PackageAlgebra.Proofs.Load.Widening

/-!
# Looking for Tests

What becomes of the members of a set when their tests are looked for.

The selector for tests evaluates its operand first, under whatever settings are inside it, and then
asks the loader for the members by their ids, under the settings around it. Nothing makes the two
agree. A package that is there only under a tag of the operand is not there without it, and neither
is a package outside a source tree that is imported only while types are checked; an id that reads
like a wildcard does not stand for its own package. Such members are reported as names that find
nothing, and there is no set, although the operand has one.

All other members are found. So there is a set for every operand whose loads were made under tags
that are active around the selector too, as long as no id reads like a wildcard.

## Main definitions

* `Resolution.ofTree`: What names are resolved against in a source tree.
* `LooksUpTests`: The members of the operand are looked up.

## Theorems

* `testsOfSet_finds`: What the members are looked up for, and what is found.
* `shared_of_reached`, `sound_of_reached`: The members of evaluated sets.
* `mem_missing_ofRecords_iff`, `mem_missing_ofTree_iff`: The members that are not found.
* `evaluate_looks_members_up`: When the selector for tests has a set.
* `evaluate_loses_member`: A package under a tag of the operand.
-/

namespace PackageAlgebra

open Calc

variable {σ : Type} {cancelled : Nat → Bool} {name selector : String} {c : Combinator}

/-! ### Lookups -/

section

variable {parties : Calculator σ NodeRef} {k : parties.loader.Service cancelled} {ctx : Context}
  {operand : Expr} {s t : CalcState σ NodeRef} {a : PackageSet NodeRef}

theorem mem_sortedIds_iff {x : String} : x ∈ a.sortedIds ↔ x ∈ a.keys := List.mem_mergeSort

theorem sortedIds_of_isEmpty (h : a.isEmpty = true) : a.sortedIds = [] := by
  have hkeys : a.keys = [] := congrArg (List.map Prod.fst) (List.isEmpty_iff.1 h)
  unfold PackageSet.sortedIds
  rw [hkeys, List.mergeSort_nil]

theorem sortedIds_of_keys {x : String} (h : a.keys = [x]) : a.sortedIds = [x] := by
  unfold PackageSet.sortedIds
  rw [h, List.mergeSort_singleton]

/-- Nothing is looked up for the empty set. -/
theorem testsOfSet_of_isEmpty (h : a.isEmpty = true) :
    testsOfSet parties ctx c a t = (.ok (c.apply a .empty), t) := by
  unfold testsOfSet
  rw [if_pos h]
  rfl

/-- The tests of the members of a set are the test packages for which their ids stand. If some of
    the ids stand for nothing, they are reported instead. -/
theorem testsOfSet_finds (hnone : k.refusal = none) (hctx : ctx.cancelled = cancelled)
    (ht : k.States t.loader) (c : Combinator) (a : PackageSet NodeRef) :
    let r := k.resolution { ctx.config with tests := true }
    let missing := r.missing a.sortedIds
    (missing = [] ∧ ∃ tests u, testsOfSet parties ctx c a t = (.ok (c.apply a tests), u) ∧
      ∀ x, x ∈ tests.keys ↔ isTestPackage x = true ∧ ∃ m ∈ a.keys, r.StandsFor m x) ∨
    (missing ≠ [] ∧ ∃ u, testsOfSet parties ctx c a t =
      (.error (.error (.load (.noMatch missing))), u)) := by
  intro r missing
  by_cases hempty : a.isEmpty = true
  · have hids := sortedIds_of_isEmpty hempty
    refine .inl ⟨congrArg r.missing hids, .empty, t, testsOfSet_of_isEmpty hempty, fun x => ?_⟩
    refine iff_of_false List.not_mem_nil fun ⟨_, m, hm, _⟩ => ?_
    rw [← mem_sortedIds_iff, hids] at hm
    cases hm
  have hconfig : { ctx.config with tests := true }.cancelled = cancelled := hctx
  rcases loadRoots_eq k hconfig ht a.sortedIds with ⟨u, hload, -⟩
  have hids : ∀ id p, (k.build (k.variant { ctx.config with tests := true })).get? id = some p →
      p.id = id := fun _ _ => k.id_eq
  have hanswer : k.answer { ctx.config with tests := true } a.sortedIds =
      resolveIn (k.build (k.variant { ctx.config with tests := true })) k.inWildcards
        { ctx.config with tests := true } a.sortedIds := by
    unfold Loader.Service.answer
    rw [hnone]
  unfold Loader.Service.outcome at hload
  unfold testsOfSet
  rw [if_neg hempty]
  by_cases hmissing : missing = []
  · rcases resolveIn_of_missing_eq_nil hids hmissing with ⟨roots, hroots, -⟩
    have hfound := hanswer.trans hroots
    rw [hfound] at hload
    refine .inl ⟨hmissing, (PackageSet.ofRoots roots).tests, u, (bind_ok hload).trans rfl,
      fun x => ?_⟩
    have hfiled : (PackageSet.ofRoots roots).Filed fun _ => True := .ofRoots fun _ _ => trivial
    rw [mem_keys_tests hfiled, k.mem_keys_of_answer hfound, and_comm]
    simp only [mem_sortedIds_iff]
    rfl
  · rw [hanswer.trans (resolveIn_of_missing hids hmissing)] at hload
    exact .inr ⟨hmissing, u, bind_error hload⟩

/-- The selector for tests looks up the members that its operand has: if all of them are found, it
    has a set, and else it fails and reports the others. -/
structure LooksUpTests (r : Resolution NodeRef) (parties : Calculator σ NodeRef) (ctx : Context)
    (operand : Expr) (selector : String) (s : CalcState σ NodeRef) (a : PackageSet NodeRef) :
    Prop where
  -- There is a set if and only if no member is missing.
  succeeds : (∃ b u, evaluate parties ctx (.select operand selector) s = (.ok b, u)) ↔
    r.missing a.sortedIds = []
  -- All that are missing are reported.
  reports : r.missing a.sortedIds ≠ [] → ∃ u,
    evaluate parties ctx (.select operand selector) s =
      (.error (.error (.load (.noMatch (r.missing a.sortedIds)))), u)

theorem looksUpTests (hnone : k.refusal = none) (hctx : ctx.cancelled = cancelled)
    (hselector : Combinator.ofText selector = (c, name))
    (hname : Selection.ofName? name = some .test)
    (hbound : ∀ n, operand = .package n → s.bindings.get? n ≠ none)
    (hrun : evaluate parties ctx operand s = (.ok a, t)) (ht : k.States t.loader) :
    LooksUpTests (k.resolution { ctx.config with tests := true }) parties ctx operand selector s
      a := by
  have hfinds := testsOfSet_finds hnone hctx ht c a
  rw [← evaluate_tests_of_value hselector hname hbound hrun] at hfinds
  rcases hfinds with ⟨hmissing, tests, u, hselect, -⟩ | ⟨hmissing, u, hselect⟩
  · exact ⟨iff_of_true ⟨_, u, hselect⟩ hmissing, fun h => absurd hmissing h⟩
  · refine ⟨iff_of_false ?_ hmissing, fun _ => ⟨u, hselect⟩⟩
    rintro ⟨b, v, hb⟩
    cases hselect.symm.trans hb

/-- An evaluated set has members of universes that have been built. -/
theorem shared_of_reached (horacle : parties.AsksSteadily k) {start : σ}
    (hk : k.States start) (h : parties.Reached cancelled start s) (hctx : ctx.cancelled = cancelled)
    (hrun : evaluate parties ctx operand s = (.ok a, t)) :
    k.States t.loader ∧ a.Filed (k.Shared t.loader t.loader) := by
  rcases evaluate_steady horacle operand ctx hctx s s (h.twins horacle hk) with
    ⟨outcome, s', t', hs, ht, -, htwins, hvalue⟩
  rw [hrun, Prod.mk.injEq] at hs ht
  rcases hs with ⟨rfl, rfl⟩
  rcases ht with ⟨-, rfl⟩
  exact ⟨htwins.first, hvalue a rfl⟩

end

/-! ### Records -/

section

variable {records : List PackageRecord} {config : LoadConfig} {ctx : Context} {operand : Expr}
  {names : List String} {parties : Calculator UniverseTable NodeRef}
  {s t : CalcState UniverseTable NodeRef} {a : PackageSet NodeRef} {x : String}

/-- Evaluations over records go on from sound states. -/
theorem sound_of_reached (h : parties.Over records) {start : UniverseTable}
    (hstart : start.BuiltFrom records) (hreached : parties.Reached cancelled start s) :
    s.Sound records := by
  induction hreached with
  | start hloader hbindings =>
      refine ⟨hloader ▸ hstart, fun name a ha => ?_⟩
      rw [hbindings] at ha
      cases ha
  | evaluate _ _ e ih => exact (evaluate_yields h e _ _ ih).sound

/-- With tests, an id is not found if each record with the id has a tag that is not active. -/
theorem mem_missing_ofRecords_iff (hx : IsIdName x) :
    x ∈ (Resolution.ofRecords records config true).missing names ↔
      x ∈ names ∧ ∀ r ∈ records, r.id = x → ∃ tag ∈ r.tags, Text.lower tag ∉ config.tagSet := by
  rw [Resolution.mem_missing_iff_of_isIdName hx]
  change _ ∧ x ∉ (Universe.ofRecords records { config with tests := true }.variant).keys ↔ _
  rw [Universe.mem_keys_ofRecords_iff]
  have hincluded : ∀ r : PackageRecord, r.existsIn { config with tests := true }.variant = true ↔
      ∀ tag ∈ r.tags, Text.lower tag ∈ config.tagSet :=
    fun r => existsIn_variant_iff.trans (and_iff_right (.inl rfl))
  simp only [hincluded]
  grind

/-- A member of an evaluated set has a record whose tags are active in one of the calls that were
    made. -/
theorem exists_record_of_known (ht : t.Sound records) (ha : a.Filed t.Known) (hx : x ∈ a.keys) :
    ∃ call ∈ t.journal, ∃ r ∈ records, r.id = x ∧
      ∀ tag ∈ r.tags, ∃ written ∈ call.tags, Text.lower written = Text.lower tag := by
  rcases List.mem_map.1 hx with ⟨m, hm, rfl⟩
  rcases ha m hm with ⟨hfiled, call, hcall, u, p, hu, hp, -⟩
  have hbuilt := ht.loader _ u hu
  subst hbuilt
  rcases Universe.get?_ofRecords_eq_some hp with ⟨r, hr, hexists, hid, -⟩
  exact ⟨call, hcall, r, hr, hid.trans hfiled, (existsIn_variant_iff.1 hexists).2⟩

/-- If all tags of calls are active, the only members that are not found are those whose ids read
    like wildcards. -/
theorem isWildcard_of_mem_missing_ofRecords (ht : t.Sound records) (ha : a.Filed t.Known)
    (hactive : ∀ call ∈ t.journal, ∀ tag ∈ call.tags, Text.lower tag ∈ config.tagSet)
    (hx : x ∈ (Resolution.ofRecords records config true).missing a.sortedIds) :
    ∃ path, x = path ++ everything := by
  refine Resolution.isWildcard_of_mem_missing hx (Universe.mem_keys_ofRecords_iff.2 ?_)
  have hmem := mem_sortedIds_iff.1 (List.mem_filter.1 hx).1
  rcases exists_record_of_known ht ha hmem with ⟨call, hcall, r, hr, hid, htags⟩
  refine ⟨r, hr, existsIn_variant_iff.2 ⟨.inl rfl, fun tag htag => ?_⟩, hid⟩
  rcases htags tag htag with ⟨written, hwritten, hsame⟩
  exact hsame ▸ hactive call hcall written hwritten

end

/-! ### Source trees -/

section

variable {tree : SourceTree} {scan : SourceScan} {config : LoadConfig} {names : List String}
  {x : String}

/-- What names are resolved against in a source tree, with or without tests. -/
def Resolution.ofTree (tree : SourceTree) (config : LoadConfig) (tests : Bool) :
    Resolution NodeRef :=
  ⟨tree.universe { config with tests := tests }.sourceVariant, fun p => !p.files.isEmpty, tests⟩

theorem resolution_scanningService (hcancelled : cancelled 0 = false)
    (hscan : tree.scan? = some scan) (tests : Bool) :
    (scanningService tree cancelled hcancelled hscan).resolution { config with tests := tests } =
      Resolution.ofTree tree config tests := by
  simp only [Loader.Service.resolution, scanningService, Resolution.ofTree]

/-- With tests, an id is not found if it is neither that of a module nor of a package of the
    standard library, and is imported at most while types are checked, which does not count. -/
theorem mem_missing_ofTree_iff (hscan : tree.scan? = some scan) (hx : IsIdName x) :
    x ∈ (Resolution.ofTree tree config true).missing names ↔
      x ∈ names ∧ x ∉ tree.stdNames ∧ x ∉ scan.modules.keys ∧
        ∀ importer m ref, scan.modules.get? importer = some m → ref ∈ m.imports.imports →
          scan.LeadsTo { config with tests := true } importer ref x →
            ref.typeChecking = true ∧ typingTag ∉ config.tagSet := by
  let v := { config with tests := true }.sourceVariant
  have huniverse : (Resolution.ofTree tree config true).candidates =
      Universe.ofScan tree.stdNames scan v := by
    unfold Resolution.ofTree SourceTree.universe
    rw [hscan]
  have hincludes : ∀ id, scan.includes v id = true ↔ id ∈ scan.modules.keys :=
    fun id => SourceScan.includes_sourceVariant_iff.trans (and_iff_left (.inl rfl))
  have hkeys : x ∈ (Universe.ofScan tree.stdNames scan v).keys ↔
      x ∈ scan.modules.keys ∨ x ∈ tree.stdNames ∨ x ∈ scan.allImportedIds v := by
    rw [OrderedMap.mem_keys_iff, ← hincludes]
    simp only [SourceScan.get?_ofScan_eq_some_iff]
    constructor
    · rintro ⟨p, ⟨hin, -⟩ | ⟨-, hstd, -⟩ | ⟨-, -, himported, -⟩⟩
      · exact .inl hin
      · exact .inr (.inl hstd)
      · exact .inr (.inr himported)
    · intro h
      by_cases hin : scan.includes v x = true
      · rcases SourceScan.exists_module_of_includes hin with ⟨m, hm⟩
        exact ⟨_, .inl ⟨hin, m, hm, rfl⟩⟩
      · rw [Bool.not_eq_true] at hin
        by_cases hstd : x ∈ tree.stdNames
        · exact ⟨_, .inr (.inl ⟨hin, hstd, rfl⟩)⟩
        · have himported := (h.resolve_left (Bool.eq_false_iff.1 hin)).resolve_left hstd
          exact ⟨_, .inr (.inr ⟨hin, hstd, himported, rfl⟩)⟩
  -- All modules exist with tests, so it is their imports that count.
  have himported : x ∈ scan.allImportedIds v ↔ ∃ importer m ref,
      scan.modules.get? importer = some m ∧ ref ∈ m.imports.imports ∧
        (ref.typeChecking = true → typingTag ∈ config.tagSet) ∧
          scan.LeadsTo { config with tests := true } importer ref x := by
    rw [SourceScan.mem_allImportedIds_iff]
    refine exists_congr fun importer => exists_congr fun m => ?_
    rw [SourceScan.mem_importedIds_iff, hincludes]
    constructor
    · rintro ⟨hm, -, ref, href, htyping, hleads⟩
      exact ⟨ref, hm, href, htyping, hleads⟩
    · rintro ⟨ref, hm, href, htyping, hleads⟩
      exact ⟨hm, OrderedMap.mem_keys_iff.2 ⟨m, hm⟩, ref, href, htyping, hleads⟩
  rw [Resolution.mem_missing_iff_of_isIdName hx, huniverse, hkeys, himported]
  grind

end

/-! ### Evaluations -/

/-- Where nothing can be loaded, all sets are empty. -/
theorem isEmpty_of_scan?_none {tree : SourceTree} (hscan : tree.scan? = none)
    {oracle : Option (Oracle SourceState)} {envKeys : List String}
    (horacle : ∀ o, oracle = some o → o.Consistent (sourceLoader tree))
    (hcancelled : cancelled 0 = false)
    {start : SourceState} (hstart : start.FoundIn tree) {s t : CalcState SourceState NodeRef}
    (hreached : Calculator.Reached ⟨sourceLoader tree, oracle, envKeys⟩ cancelled start s)
    {ctx : Context} (hctx : ctx.cancelled = cancelled) {operand : Expr} {a : PackageSet NodeRef}
    (hrun : evaluate ⟨sourceLoader tree, oracle, envKeys⟩ ctx operand s = (.ok a, t)) :
    a.isEmpty = true := by
  let k : (sourceLoader tree).Service cancelled :=
    refusingService tree cancelled (fun _ => .invalidRoot tree.rootPath) (·.FoundIn tree)
      fun hconfig _ hs names => load_of_error (hconfig ▸ hcancelled)
        (universe?_of_scan?_none hs hscan _ 1) names
  have hnodes : k.SteadyNodes := steadyNodes_of_foundIn rfl (fun _ hs => hs)
    fun _ _ v hs _ hscan => hs.requiring hscan v
  rcases shared_of_reached (k := k) (fun o ho => horacle o ho cancelled k hnodes) hstart hreached
    hctx hrun with ⟨ht, ha⟩
  refine List.isEmpty_iff.2 (List.eq_nil_iff_forall_not_mem.2 fun m hm => ?_)
  -- A member would be of a universe, and the tree would have been scanned for that.
  rcases (ha m hm).2 with ⟨v, hv, -⟩
  rcases SourceState.FoundIn.universes ht v _ hv with ⟨scan, hmade, -⟩
  cases hscan.symm.trans (SourceState.FoundIn.scan ht scan hmade)

/-- The selector for tests, behind anything but a name that is loaded, looks the members of its
    operand up by their ids. There they are asked for with tests and under the tags around the
    selector, whatever tags the operand has them from. If some of them are not found, there is no
    set, and they are reported.

    Over records these are the members whose records need a tag that is not active, and maybe
    members whose ids read like wildcards; so it is only the latter if all calls that were made had
    active tags. In a source tree they are neither modules nor packages of the standard library,
    but packages outside that are imported while types are checked, where this does not count.

    The oracle may be any that changes the loader of records by asking it, or that answers alike
    wherever the loader of a source tree has the same packages. -/
theorem evaluate_looks_members_up (hselector : Combinator.ofText selector = (c, name))
    (hname : Selection.ofName? name = some .test) :
    (∀ (records : List PackageRecord) (history : List Question)
        (oracle : Option (Oracle UniverseTable)) (envKeys : List String) (ctx : Context)
        (s t : CalcState UniverseTable NodeRef) (operand : Expr) (a : PackageSet NodeRef),
      let parties : Calculator UniverseTable NodeRef := ⟨recordLoader records, oracle, envKeys⟩
      let r := Resolution.ofRecords records ctx.config true
      (∀ o, oracle = some o → o.OnlyAsks parties.loader) → ctx.cancelled 0 = false →
      parties.Reached ctx.cancelled (parties.loader.after history .empty) s →
      (∀ n, operand = .package n → s.bindings.get? n ≠ none) →
      evaluate parties ctx operand s = (.ok a, t) →
        LooksUpTests r parties ctx operand selector s a ∧
        (∀ x, IsIdName x → (x ∈ r.missing a.sortedIds ↔ x ∈ a.keys ∧
          ∀ q ∈ records, q.id = x → ∃ tag ∈ q.tags, Text.lower tag ∉ ctx.config.tagSet)) ∧
        ((∀ call ∈ t.journal, ∀ tag ∈ call.tags, Text.lower tag ∈ ctx.config.tagSet) →
          ∀ x ∈ r.missing a.sortedIds, ∃ path, x = path ++ everything)) ∧
    (∀ (tree : SourceTree) (history : List Question) (oracle : Option (Oracle SourceState))
        (envKeys : List String) (ctx : Context) (s t : CalcState SourceState NodeRef)
        (operand : Expr) (a : PackageSet NodeRef),
      let parties : Calculator SourceState NodeRef := ⟨sourceLoader tree, oracle, envKeys⟩
      let r := Resolution.ofTree tree ctx.config true
      (∀ o, oracle = some o → o.Consistent parties.loader) → (∀ n, ctx.cancelled n = false) →
      parties.Reached ctx.cancelled (parties.loader.after history {}) s →
      (∀ n, operand = .package n → s.bindings.get? n ≠ none) →
      evaluate parties ctx operand s = (.ok a, t) →
        LooksUpTests r parties ctx operand selector s a ∧
        ∀ scan, tree.scan? = some scan → ∀ x, IsIdName x → (x ∈ r.missing a.sortedIds ↔
          x ∈ a.keys ∧ x ∉ tree.stdNames ∧ x ∉ scan.modules.keys ∧
            ∀ importer m ref, scan.modules.get? importer = some m → ref ∈ m.imports.imports →
              scan.LeadsTo { ctx.config with tests := true } importer ref x →
                ref.typeChecking = true ∧ typingTag ∉ ctx.config.tagSet)) := by
  constructor
  · intro records history oracle envKeys ctx s t operand a parties r horacle hcancelled hreached
      hbound hrun
    have hover : parties.Over records := ⟨rfl, horacle⟩
    have hbuilt : (parties.loader.after history .empty).BuiltFrom records :=
      UniverseTable.builtFrom_empty.after history
    have hsound := sound_of_reached hover hbuilt hreached
    rcases (yields_of_eq hrun).1 (evaluate_yields hover operand ctx s hsound) with
      ⟨-, ht, hvalue⟩
    let k : parties.loader.Service ctx.cancelled := recordService records ctx.cancelled
    have hnone : k.refusal = none := if_neg (Bool.not_eq_true _ ▸ hcancelled)
    refine ⟨looksUpTests (k := k) hnone rfl hselector hname hbound hrun ht.loader,
      fun x hx => ?_, fun hactive x hx => ?_⟩
    · rw [mem_missing_ofRecords_iff hx, mem_sortedIds_iff]
    · exact isWildcard_of_mem_missing_ofRecords ht (hvalue a rfl) hactive hx
  · intro tree history oracle envKeys ctx s t operand a parties r horacle hcancelled hreached
      hbound hrun
    have hfound : (parties.loader.after history {}).FoundIn tree :=
      SourceState.foundIn_empty.after history
    cases hscan : tree.scan? with
    | none =>
        have hempty := isEmpty_of_scan?_none hscan horacle (hcancelled 0) hfound hreached rfl hrun
        have hmissing : r.missing a.sortedIds = [] :=
          congrArg r.missing (sortedIds_of_isEmpty hempty)
        have hselect := evaluate_tests_of_value hselector hname hbound hrun
        rw [testsOfSet_of_isEmpty hempty] at hselect
        exact ⟨⟨iff_of_true ⟨_, t, hselect⟩ hmissing, fun h => absurd hmissing h⟩, nofun⟩
    | some scan =>
        have hends : SourceTree.interrupts { cancelled := ctx.cancelled } 1 scan = false := by
          unfold SourceTree.interrupts
          rw [List.any_eq_false]
          exact fun i _ => Bool.eq_false_iff.1 (hcancelled _)
        let k : parties.loader.Service ctx.cancelled :=
          scanningService tree ctx.cancelled (hcancelled 0) hscan
        have hnodes : k.SteadyNodes := steadyNodes_of_foundIn rfl (fun _ hs => hs.1)
          fun _ _ v hs _ hscan => ⟨hs.1.requiring hscan v, fun hnone => by cases hnone⟩
        have hsteady : parties.AsksSteadily k := fun o ho => horacle o ho ctx.cancelled k hnodes
        have hshared := shared_of_reached hsteady ⟨hfound, fun _ => hends⟩ hreached rfl hrun
        have hlooks := looksUpTests (k := k) rfl rfl hselector hname hbound hrun hshared.1
        rw [resolution_scanningService] at hlooks
        refine ⟨hlooks, fun scan' hscan' x hx => ?_⟩
        cases hscan'
        rw [mem_missing_ofTree_iff hscan hx, mem_sortedIds_iff]

/-- A package that is there only under a tag. -/
def securedRecords : List PackageRecord := [{ id := "app", tags := ["tls"] }]

/-- The package, under the tag. -/
def securedOperand : Expr := .call "tls=1" [.package "app"]

/-- The source of a shop that imports a cart while types are checked. -/
def checkedSource : List UInt8 := "if TYPE_CHECKING:\n    import cart\n".toUTF8.toList

/-- The tree of the shop, which has no cart. -/
def checkedTree : SourceTree where
  files := ⟨.directory [("shop.py", .file checkedSource)], "/"⟩
  root := "/"
  stdNames := ["os"]

/-- What a scan of the tree finds. -/
def checkedScan : SourceScan := .ofFiles (SourceFile.scan "/" checkedTree.files.root)

theorem filesBelow_checkedTree :
    checkedTree.files.root.filesBelow = [(["shop.py"], checkedSource)] := by
  simp [FileTree.filesBelow, gather, FileTree.entries, checkedTree, FileTree.foundIn]

/-- What the shop imports, with typing. -/
def checkedOperand : Expr := .call "typing=1" [.select (.package "shop") "import"]

/-- A calculator that has looked at the tree. -/
def checkedState : CalcState SourceState NodeRef :=
  { loader := .requiring {} checkedTree checkedScan ({} : LoadConfig).sourceVariant }

theorem after_checkedTree :
    (sourceLoader checkedTree).after [.allNodes {}] {} = checkedState.loader :=
  congrArg Prod.snd (allNodes_sourceLoader SourceState.foundIn_empty rfl fun _ => rfl)

/-- The tests of the package, and of the cart, are looked for without the tag, and it is not found;
    where the tag is active around the selector, it is. -/
theorem evaluate_looks_members_up_secured :
    let parties : Calculator UniverseTable NodeRef := { loader := recordLoader securedRecords }
    let s : CalcState UniverseTable NodeRef := { loader := .empty }
    let shop : Calculator SourceState NodeRef := { loader := sourceLoader checkedTree }
    ((∃ u, evaluate parties {} (.select securedOperand "test") s =
          (.error (.error (.load (.noMatch ["app"]))), u)) ∧
        ∃ b u, evaluate parties { tags := ["tls=1"] } (.select securedOperand "test") s =
          (.ok b, u)) ∧
      (∃ u, evaluate shop {} (.select checkedOperand "test") checkedState =
          (.error (.error (.load (.noMatch ["cart"]))), u)) ∧
        ∃ b u, evaluate shop { tags := ["typing=1"] } (.select checkedOperand "test") checkedState =
          (.ok b, u) := by
  intro parties s shop
  have hselector : Combinator.ofText "test" = (.keep, "test") := by decide
  have hname : Selection.ofName? "test" = some .test := by decide
  rcases evaluate_looks_members_up hselector hname with ⟨hrecords, htree⟩
  have hlooks := hrecords securedRecords [] none defaultEnvKeys
  have hshop := htree checkedTree [.allNodes {}] none defaultEnvKeys
  -- The operands have one member each, whether or not the tag is active around them.
  have happ : ∀ ctx ∈ [({} : Context), { tags := ["tls=1"] }],
      idsOf (evaluate parties ctx securedOperand s) = some ["app"] := by
    decide +kernel
  have hcart : ∀ ctx ∈ [({} : Context), { tags := ["typing=1"] }],
      idsOf (evaluate shop ctx checkedOperand checkedState) = some ["cart"] := by
    unfold checkedState checkedScan SourceFile.scan
    rw [filesBelow_checkedTree]
    decide +kernel
  -- It is missing where the tag is not.
  have hmissing : (Resolution.ofRecords securedRecords ({} : Context).config true).missing
        ["app"] = ["app"] ∧
      (Resolution.ofRecords securedRecords ({ tags := ["tls=1"] } : Context).config true).missing
        ["app"] = [] := by
    decide +kernel
  have hmissing' : (Resolution.ofTree checkedTree ({} : Context).config true).missing
        ["cart"] = ["cart"] ∧
      (Resolution.ofTree checkedTree ({ tags := ["typing=1"] } : Context).config true).missing
        ["cart"] = [] := by
    have hbuild : ∀ v, checkedTree.universe v = .ofScan checkedTree.stdNames checkedScan v :=
      fun _ => rfl
    unfold Resolution.ofTree
    rw [hbuild, hbuild]
    unfold checkedScan SourceFile.scan
    rw [filesBelow_checkedTree]
    decide +kernel
  refine ⟨⟨?_, ?_⟩, ?_, ?_⟩
  · rcases exists_of_idsOf (happ {} (by simp)) with ⟨a, t, hrun, hkeys⟩
    have hreports := (hlooks {} s t securedOperand a nofun rfl (.start rfl rfl) nofun
      hrun).1.reports
    rw [sortedIds_of_keys hkeys, hmissing.1] at hreports
    exact hreports (List.cons_ne_nil _ _)
  · rcases exists_of_idsOf (happ { tags := ["tls=1"] } (by simp)) with ⟨a, t, hrun, hkeys⟩
    have htests := (hlooks _ s t securedOperand a nofun rfl (.start rfl rfl) nofun hrun).1
    rw [htests.succeeds, sortedIds_of_keys hkeys]
    exact hmissing.2
  · rcases exists_of_idsOf (hcart {} (by simp)) with ⟨a, t, hrun, hkeys⟩
    have hreports := (hshop {} checkedState t checkedOperand a nofun (fun _ => rfl)
      (.start after_checkedTree.symm rfl) nofun hrun).1.reports
    rw [sortedIds_of_keys hkeys, hmissing'.1] at hreports
    exact hreports (List.cons_ne_nil _ _)
  · rcases exists_of_idsOf (hcart { tags := ["typing=1"] } (by simp)) with ⟨a, t, hrun, hkeys⟩
    have htests := (hshop _ checkedState t checkedOperand a nofun (fun _ => rfl)
      (.start after_checkedTree.symm rfl) nofun hrun).1
    rw [htests.succeeds, sortedIds_of_keys hkeys]
    exact hmissing'.2

/-- The names that a run reports, if it fails because they find nothing. -/
def missingOf {σ ρ : Type} (run : Except Failure (PackageSet ρ) × CalcState σ ρ) :
    Option (List String) :=
  match run.1 with
  | .error (.error (.load (.noMatch names))) => some names
  | _ => none

/-- The operand has the package, and behind it the selector for tests reports just this package as
    one that does not exist. -/
theorem evaluate_loses_member :
    let parties : Calculator UniverseTable NodeRef := { loader := recordLoader securedRecords }
    let s : CalcState UniverseTable NodeRef := { loader := .empty }
    idsOf (evaluate parties {} securedOperand s) = some ["app"] ∧
      missingOf (evaluate parties {} (.select securedOperand "test") s) = some ["app"] := by
  decide +kernel

end PackageAlgebra
