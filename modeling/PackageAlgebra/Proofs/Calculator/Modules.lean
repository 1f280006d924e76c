import PackageAlgebra.Proofs.Calculator.SideBySide
import PackageAlgebra.Proofs.Package.Modules

/-!
# Selecting within Modules

The selector for modules, once and again.

The selector adds to a set what it leads to within its modules. It is the one selector that is not
combined with its operand, whatever sign stands before it, for its operand is in its result
anyway. What it adds is found by imports, and these lead where the nodes say. Of nodes that come
straight from the loader, no two have one id, and then selecting again adds nothing.

Nodes come straight from the loader where a query names packages, and it does not matter whether
the loader has built their universe now or long ago.

## Theorems

* `evaluate_modules`: The selector is applied to the value of its operand.
* `evaluate_modules_modules`: Once is enough where nodes are those of one universe.
* `evaluate_modules_loadRoots`: So it is for what the loader finds.
* `moduleDependencies_within_modules`: What is selected within modules.
-/

namespace PackageAlgebra

open Calc Relation

variable {σ ρ : Type} {ctx : Context} {operand : Expr} {selector again : String}

/-- The selector for modules is applied to the value of its operand. -/
theorem evaluate_modules {parties : Calculator σ ρ}
    (h : Selection.ofName? (Combinator.ofText selector).2 = some .modules)
    {s t : CalcState σ ρ} {outcome : Except Failure (PackageSet ρ)}
    (hrun : evaluate parties ctx operand s = (outcome, t)) :
    evaluate parties ctx (.select operand selector) s =
      (outcome.map (PackageSet.moduleDependencies (parties.loader.catalog t.loader)), t) := by
  have htest : Selection.modules ≠ .test := by decide
  rw [evaluate_selection h htest]
  cases outcome with
  | error e => exact bind_error hrun
  | ok a =>
      rw [bind_ok hrun]
      rfl

/-- Selecting again within the modules adds nothing where the nodes are those of one universe. -/
theorem evaluate_modules_modules {parties : Calculator σ ρ}
    (h : Selection.ofName? (Combinator.ofText selector).2 = some .modules)
    (hagain : Selection.ofName? (Combinator.ofText again).2 = some .modules)
    {s t : CalcState σ ρ} {outcome : Except Failure (PackageSet ρ)}
    (hrun : evaluate parties ctx operand s = (outcome, t))
    (hdrawn : ∀ a, outcome = .ok a →
      ∃ u : NodeUniverse (parties.loader.catalog t.loader), a.DrawnFrom u) :
    evaluate parties ctx (.select (.select operand selector) again) s =
      evaluate parties ctx (.select operand selector) s := by
  have honce := evaluate_modules h hrun
  rw [evaluate_modules hagain honce, honce]
  cases outcome with
  | error e => rfl
  | ok a =>
      rcases hdrawn a rfl with ⟨u, ha⟩
      exact congrArg (fun b => (Except.ok b, t)) ha.moduleDependencies_moduleDependencies

/-! ### What the loader finds -/

variable {cancelled : Nat → Bool} {parties : Calculator σ NodeRef} {s : CalcState σ NodeRef}

/-- What a load finds are nodes of one universe. -/
theorem exists_drawnFrom_loadRoots (k : parties.loader.Service ctx.cancelled)
    (hs : k.States s.loader) (names : List String) :
    ∃ outcome t, loadRoots parties ctx.config names s = (outcome, t) ∧ ∀ a, outcome = .ok a →
      ∃ u : NodeUniverse (parties.loader.catalog t.loader), a.DrawnFrom u := by
  have hctx : ctx.config.cancelled = ctx.cancelled := rfl
  rcases loadRoots_eq k hctx hs names with ⟨t, hload, -, -, -, hbuilt⟩
  refine ⟨_, t, hload, fun a ha => ?_⟩
  refine ⟨k.nodeUniverse (hbuilt a ha), fun e he => ?_⟩
  unfold Loader.Service.outcome at ha
  cases hanswer : k.answer ctx.config names with
  | error cause =>
      rw [hanswer] at ha
      cases ha
  | ok roots =>
      rw [hanswer, Except.ok.injEq] at ha
      rw [← ha] at he
      rcases List.mem_map.1 (OrderedMap.mem_of_mem_entries_ofList he) with ⟨p, hp, rfl⟩
      exact ⟨k.exists_get?_of_answer hanswer hp, rfl⟩

/-- Names that are not bound are loaded, one or many of them. -/
inductive Unbound (s : CalcState σ NodeRef) : Expr → Prop
  -- One name.
  | name {name : String} (h : s.bindings.get? name = none) : Unbound s (.package name)
  -- Names side by side.
  | beside {first : String} {rest : List String}
      (h : ∀ name ∈ first :: rest, s.bindings.get? name = none) :
      Unbound s (.beside (first :: rest))

/-- What unbound names stand for are nodes of one universe. -/
theorem exists_drawnFrom_evaluate (parties : Calculator σ NodeRef)
    (k : parties.loader.Service ctx.cancelled) (hs : k.States s.loader) (h : Unbound s operand) :
    ∃ outcome t, evaluate parties ctx operand s = (outcome, t) ∧ ∀ a, outcome = .ok a →
      ∃ u : NodeUniverse (parties.loader.catalog t.loader), a.DrawnFrom u := by
  cases h with
  | @name name hname =>
      rw [evaluate_package, hname]
      exact exists_drawnFrom_loadRoots k hs [name]
  | @beside first rest hnames =>
      have hget : (get : Calc σ NodeRef _) s = (.ok s, s) := rfl
      have hvalues : (first :: rest).filterMap s.bindings.get? = [] :=
        List.filterMap_eq_nil_iff.2 hnames
      have hpatterns : (first :: rest).filter (fun name => !s.bindings.contains name) =
          first :: rest := by
        refine List.filter_eq_self.2 fun name hname => ?_
        rw [OrderedMap.contains_eq_isSome, hnames name hname]
        rfl
      rcases exists_drawnFrom_loadRoots k hs (first :: rest) with ⟨outcome, t, hload, hdrawn⟩
      unfold Expr.beside
      rw [evaluate_group (bareNames?_map_package (first :: rest))]
      unfold evaluateGroup
      rw [bind_ok hget, hvalues, hpatterns]
      cases outcome with
      | error e => exact ⟨_, t, bind_error hload, fun a ha => by cases ha⟩
      | ok a =>
          refine ⟨_, t, bind_ok hload, fun b hb => ?_⟩
          rcases hdrawn a rfl with ⟨u, ha⟩
          have hempty : PackageSet.DrawnFrom .empty u := fun _ he => absurd he List.not_mem_nil
          rw [← Except.ok.inj hb]
          exact ⟨u, hempty.union ha⟩

/-- Within its modules, a set of nodes of a universe becomes itself together with those members of
    its closure whose module is that of one of its members. The closure holds the nodes to which
    imports lead from a member, by packages of any modules or of none. Selecting again adds
    nothing, and changes neither nodes nor their order; so a query that selects twice is evaluated
    as one that selects once, if the value of its operand is such a set. That is so for all unbound
    names, one or many, with both loaders, whatever they were asked before. -/
theorem moduleDependencies_within_modules {catalog : Catalog ρ} {u : NodeUniverse catalog}
    {a : PackageSet ρ} (ha : a.DrawnFrom u)
    (h : Selection.ofName? (Combinator.ofText selector).2 = some .modules)
    (hagain : Selection.ofName? (Combinator.ofText again).2 = some .modules) :
    (∀ e, e ∈ (a.moduleDependencies catalog).entries ↔ e ∈ a.entries ∨
      e ∈ (PackageSet.ofClosure catalog a.values).entries ∧
        ∃ name, e.2.moduleName = some name ∧ ∃ q ∈ a.values, q.moduleName = some name) ∧
    (∀ e, e ∈ (PackageSet.ofClosure catalog a.values).entries ↔
      e.2 ∈ u.nodes ∧ e.2.id = e.1 ∧ ∃ x ∈ a.keys, ReflTransGen u.Imports x e.1) ∧
    (a.moduleDependencies catalog).moduleDependencies catalog = a.moduleDependencies catalog ∧
    (∀ {σ : Type} (parties : Calculator σ ρ) (ctx : Context) (operand : Expr)
        (s t : CalcState σ ρ), evaluate parties ctx operand s = (.ok a, t) →
      parties.loader.catalog t.loader = catalog →
      evaluate parties ctx (.select (.select operand selector) again) s =
          evaluate parties ctx (.select operand selector) s ∧
        evaluate parties ctx (.select operand selector) s =
          (.ok (a.moduleDependencies catalog), t)) ∧
    (∀ (history : List Question) (ctx : Context),
      (∀ (records : List PackageRecord) (oracle : Option (Oracle UniverseTable))
          (envKeys : List String) (s : CalcState UniverseTable NodeRef) (operand : Expr),
        Unbound s operand →
        let parties : Calculator UniverseTable NodeRef := ⟨recordLoader records, oracle, envKeys⟩
        let start := { s with loader := parties.loader.after history .empty }
        evaluate parties ctx (.select (.select operand selector) again) start =
          evaluate parties ctx (.select operand selector) start) ∧
      ∀ (tree : SourceTree) (oracle : Option (Oracle SourceState)) (envKeys : List String)
          (s : CalcState SourceState NodeRef) (operand : Expr), Unbound s operand →
        let parties : Calculator SourceState NodeRef := ⟨sourceLoader tree, oracle, envKeys⟩
        let start := { s with loader := parties.loader.after history {} }
        evaluate parties ctx (.select (.select operand selector) again) start =
          evaluate parties ctx (.select operand selector) start) := by
  refine ⟨fun e => ha.mem_moduleDependencies_iff, fun e => ha.mem_closure_iff,
    ha.moduleDependencies_moduleDependencies, ?_, fun history ctx => ⟨?_, ?_⟩⟩
  · rintro σ parties ctx operand s t hrun rfl
    refine ⟨evaluate_modules_modules h hagain hrun fun b hb => ⟨u, ?_⟩, evaluate_modules h hrun⟩
    rwa [← Except.ok.inj hb]
  · intro records oracle envKeys s operand hunbound parties start
    have hbuilt : start.loader.BuiltFrom records := UniverseTable.builtFrom_empty.after history
    have hstart : Unbound start operand := by cases hunbound <;> constructor <;> assumption
    rcases exists_drawnFrom_evaluate parties (recordService records ctx.cancelled) hbuilt hstart
      with ⟨outcome, t, hrun, hdrawn⟩
    exact evaluate_modules_modules h hagain hrun hdrawn
  · intro tree oracle envKeys s operand hunbound parties start
    have hfound : ((sourceLoader tree).after history {}).FoundIn tree :=
      SourceState.foundIn_empty.after history
    rcases exists_service_sourceLoader hfound ctx.cancelled with ⟨k, hk, -⟩
    have hstart : Unbound start operand := by cases hunbound <;> constructor <;> assumption
    rcases exists_drawnFrom_evaluate parties k hk hstart with ⟨outcome, t, hrun, hdrawn⟩
    exact evaluate_modules_modules h hagain hrun hdrawn

open NodeUniverse in
/-- A node of a module, or of none. -/
def moduleMember (id : String) (moduleName : Option String) (imports : List String) :
    Node String :=
  { listedNode id imports with moduleName := moduleName }

/-- Two packages of a shop that lead to each other, one of them by way of a package of no module,
    and a package of another module. -/
def shopModules : OrderedMap String (Node String) :=
  .ofList [("cart", moduleMember "cart" (some "shop") ["glue"]),
    ("glue", moduleMember "glue" none ["till", "tax"]),
    ("till", moduleMember "till" (some "shop") ["cart"]),
    ("tax", moduleMember "tax" (some "state") [])]

/-- From the cart the till is reached by way of a package of no module. That one is not selected,
    nor is a package of another module, and to select again is to select once. -/
theorem moduleDependencies_within_modules_detour :
    let catalog := Catalog.ofMap shopModules
    let till := moduleMember "till" (some "shop") ["cart"]
    let a := PackageSet.ofRoots [moduleMember "cart" (some "shop") ["glue"]]
    let b := a.moduleDependencies catalog
    (∃ u : NodeUniverse catalog, a.DrawnFrom u) ∧ ("till", till) ∈ b.entries ∧
      "glue" ∉ b.keys ∧ "tax" ∉ b.keys ∧ b.moduleDependencies catalog = b ∧
      evaluate { loader := recordLoader taggedRecords } {}
          (.select (.select (.beside ["a", "..."]) "mod") "Module") { loader := .empty } =
        evaluate { loader := recordLoader taggedRecords } {}
          (.select (.beside ["a", "..."]) "mod") { loader := .empty } := by
  intro catalog till a b
  have hfiled : ∀ e ∈ shopModules.entries, e.2.id = e.1 := by decide
  have ha : a.DrawnFrom (NodeUniverse.ofMap shopModules hfiled) := by
    intro e he
    rw [List.mem_singleton.1 he]
    exact ⟨List.mem_cons_self, rfl⟩
  have hmod : Selection.ofName? (Combinator.ofText "mod").2 = some .modules := by decide
  have hmodule : Selection.ofName? (Combinator.ofText "Module").2 = some .modules := by decide
  have hunbound : Unbound ({ loader := .empty } : CalcState UniverseTable NodeRef)
      (.beside ["a", "..."]) := .beside fun _ _ => rfl
  rcases moduleDependencies_within_modules ha hmod hmodule with
    ⟨hmembers, hclosure, honce, -, hloaders⟩
  have hglue : (NodeUniverse.ofMap shopModules hfiled).Imports "cart" "glue" :=
    ⟨_, List.mem_cons_self, rfl, by decide⟩
  have htill : (NodeUniverse.ofMap shopModules hfiled).Imports "glue" "till" :=
    ⟨_, List.mem_cons_of_mem _ List.mem_cons_self, rfl, by decide⟩
  have hmet : ("till", till) ∈ (PackageSet.ofClosure catalog a.values).entries := by
    refine (hclosure _).2 ⟨?_, rfl, "cart", List.mem_cons_self, .tail (.single hglue) htill⟩
    exact List.mem_cons_of_mem _ (List.mem_cons_of_mem _ List.mem_cons_self)
  have hshop : ∀ q ∈ a.values, q.moduleName = some "shop" := by decide
  -- What is added has the one module that there is.
  have hothers : ∀ x ∈ b.keys, x = "cart" ∨ ∃ p ∈ shopModules.values, p.id = x ∧
      p.moduleName = some "shop" := by
    intro x hx
    rcases List.mem_map.1 hx with ⟨e, he, rfl⟩
    rcases (hmembers e).1 he with hold | ⟨hmet, name, hname, q, hq, hmodule⟩
    · exact .inl (congrArg Prod.fst (List.mem_singleton.1 hold))
    · have hmember := (hclosure e).1 hmet
      rw [hshop q hq] at hmodule
      exact .inr ⟨e.2, hmember.1, hmember.2.1, hname.trans hmodule.symm⟩
  refine ⟨⟨_, ha⟩, ?_, fun h => ?_, fun h => ?_, honce, ?_⟩
  · exact (hmembers _).2 (.inr ⟨hmet, "shop", rfl, _, List.mem_cons_self, rfl⟩)
  · exact absurd (hothers _ h) (by decide)
  · exact absurd (hothers _ h) (by decide)
  · exact (hloaders [] {}).1 taggedRecords none defaultEnvKeys { loader := .empty }
      (.beside ["a", "..."]) hunbound

end PackageAlgebra
