import PackageAlgebra.Proofs.Calculator.Steps
import PackageAlgebra.Proofs.Load.Caches
import PackageAlgebra.Proofs.Load.Resolving
import PackageAlgebra.Proofs.Package.Universe

/-!
# Loaders as Services

What a loader answers, as long as its loads are cancelled at the same times.

The two loaders keep different things between their questions, and a calculation must not care.
What they have in common is that each answers out of universes, one for each variant, that are
the same whenever they are built. `Loader.Service` says so: which universes these are, which
states the loader may be in, and that a load goes from one of these states to another and answers
as it would in any of them. Either no load gets a universe, and then each of them fails for one
reason, or all of them do.

For a list of records that is always so. For a source tree it is so for each start by itself. A
scan may be cancelled half way, and then no load will ever get one; but where the scan had been
made before, nobody asks, and all loads get it. So whether there is a scan at the start belongs to
the states.

## Main definitions

* `Loader.Service`: What a loader answers, whatever it was asked before.
* `Loader.Service.answer`: The answer to a question.
* `Loader.Service.nodeUniverse`: A universe that has been built, as one of nodes.
* `Loader.Service.SteadyNodes`: What all packages are does not depend on the state.
* `recordService`: The loader of a list of records.
* `SourceTree.universe`: The universe of a variant of a source tree.

## Theorems

* `Loader.Service.load_eq`: A load answers, and leaves what has been built.
* `Calc.loadRoots_eq`: So does a load in the middle of a calculation.
* `exists_service_sourceLoader`: The loader of a source tree is a service from any start.
-/

namespace PackageAlgebra

variable {σ : Type} {cancelled : Nat → Bool} {config : LoadConfig} {v : Variant}
  {p : Node NodeRef} {id : String} {names : List String} {roots : List (Node NodeRef)}

/-- What a loader answers, whatever it was asked before, if its loads are cancelled at given
    times. -/
structure Loader.Service (l : Loader σ NodeRef) (cancelled : Nat → Bool) where
  -- The universes that a state keeps.
  table : σ → UniverseTable
  -- The universe of a variant.
  build : Variant → Universe
  -- What the universe of a configuration depends on.
  variant : LoadConfig → Variant
  -- Whether wildcards stand for a node.
  inWildcards : Node NodeRef → Bool
  -- Why loads fail, if none of them gets a universe.
  refusal : Option (List String → LoadError)
  -- The states that the loader may be in.
  States : σ → Prop
  -- References lead into the universes that are kept.
  catalog_eq : ∀ s, l.catalog s = (table s).catalog
  -- Nodes are filed under their ids.
  id_eq : ∀ {v id p}, (build v).get? id = some p → p.id = id
  -- Imports stay in the universe.
  staysIn : ∀ v, Universe.StaysIn (build v) v
  -- Without a universe, a load fails and changes nothing.
  refused : ∀ {refuse}, refusal = some refuse → ∀ {config}, config.cancelled = cancelled →
    ∀ {s}, States s → ∀ names, l.load config names s = (.error (refuse names), s)
  -- Else it answers from the universe of the configuration, which is then kept.
  answered : refusal = none → ∀ {config}, config.cancelled = cancelled → ∀ {s}, States s →
    ∀ names, ∃ t, l.load config names s =
        (resolveIn (build (variant config)) inWildcards config names, t) ∧
      States t ∧ (table s).KeptIn (table t) ∧
        (table t).get? (variant config) = some (build (variant config))

namespace Loader.Service

variable {l : Loader σ NodeRef} (k : l.Service cancelled) {s : σ}

/-- What names are resolved against. -/
def resolution (config : LoadConfig) : Resolution NodeRef :=
  ⟨k.build (k.variant config), k.inWildcards, config.tests⟩

/-- The answer to a question. -/
def answer (config : LoadConfig) (names : List String) : Except LoadError (List (Node NodeRef)) :=
  match k.refusal with
  | some refuse => .error (refuse names)
  | none => resolveIn (k.build (k.variant config)) k.inWildcards config names

/-- A load answers, and leaves what has been built. The universe of an answer has been built. -/
theorem load_eq (hconfig : config.cancelled = cancelled) (hs : k.States s) (names : List String) :
    ∃ t, l.load config names s = (k.answer config names, t) ∧ k.States t ∧
      (k.table s).KeptIn (k.table t) ∧ ∀ roots, k.answer config names = .ok roots →
        (k.table t).get? (k.variant config) = some (k.build (k.variant config)) := by
  unfold answer
  cases hrefusal : k.refusal with
  | some refuse =>
      exact ⟨s, k.refused hrefusal hconfig hs names, hs, fun _ _ h => h, fun _ h => by cases h⟩
  | none =>
      rcases k.answered hrefusal hconfig hs names with ⟨t, hload, ht, hkept, hbuilt⟩
      exact ⟨t, hload, ht, hkept, fun _ _ => hbuilt⟩

theorem resolveIn_of_answer (h : k.answer config names = .ok roots) :
    k.refusal = none ∧
      resolveIn (k.build (k.variant config)) k.inWildcards config names = .ok roots := by
  unfold answer at h
  split at h
  · cases h
  · next hnone => exact ⟨hnone, h⟩

/-- There is an answer if there is a universe, and each name stands for something there. -/
theorem exists_answer_eq_ok_iff : (∃ roots, k.answer config names = .ok roots) ↔
    k.refusal = none ∧ ∀ name ∈ names, ((k.resolution config).matchesOf name).isSome := by
  constructor
  · rintro ⟨roots, hroots⟩
    have hresolve := k.resolveIn_of_answer hroots
    exact ⟨hresolve.1, exists_resolveIn_eq_ok_iff.1 ⟨roots, hresolve.2⟩⟩
  · rintro ⟨hnone, hall⟩
    unfold answer
    rw [hnone]
    exact exists_resolveIn_eq_ok_iff.2 hall

/-- An answer has the ids for which one of the names stands. -/
theorem mem_keys_of_answer (h : k.answer config names = .ok roots) :
    id ∈ (PackageSet.ofRoots roots).keys ↔
      ∃ name ∈ names, (k.resolution config).StandsFor name id :=
  mem_keys_of_resolveIn (fun _ _ => k.id_eq) (k.resolveIn_of_answer h).2

/-- What is found are nodes of the universe of the configuration. -/
theorem exists_get?_of_answer (h : k.answer config names = .ok roots) (hp : p ∈ roots) :
    ∃ id, (k.build (k.variant config)).get? id = some p :=
  exists_get?_of_resolveIn (k.resolveIn_of_answer h).2 hp

/-- References that name a universe that is kept lead to its nodes. -/
theorem get?_catalog (ht : (k.table s).get? v = some (k.build v)) {ref : NodeRef}
    (href : ref.variant = v) : (l.catalog s).get? ref = (k.build v).get? ref.id := by
  rw [← href] at ht ⊢
  rw [k.catalog_eq, UniverseTable.get?_catalog ht]

/-- What a node imports that refers to a universe are nodes of the universe. -/
theorem exists_get?_of_mem_imported (ht : (k.table s).get? v = some (k.build v))
    (hp : ∀ e ∈ p.imports.entries, e.2.variant = v) {q : Node NodeRef}
    (hq : q ∈ p.imported (l.catalog s)) : ∃ id, (k.build v).get? id = some q := by
  rcases Node.mem_imported_iff.1 hq with ⟨e, he, hfind⟩
  rw [k.get?_catalog ht (hp e he)] at hfind
  exact ⟨e.2.id, hfind⟩

/-- The nodes of a universe that has been built. -/
def nodeUniverse (ht : (k.table s).get? v = some (k.build v)) : NodeUniverse (l.catalog s) where
  nodes := {p | ∃ id, (k.build v).get? id = some p}
  imported_mem := by
    rintro p q ⟨id, hp⟩ hq
    exact k.exists_get?_of_mem_imported ht (k.staysIn v id p hp) hq
  eq_of_id_eq := by
    rintro p q ⟨i, hp⟩ ⟨j, hq⟩ hid
    rw [k.id_eq hp, k.id_eq hq] at hid
    rw [hid, hq, Option.some.injEq] at hp
    exact hp.symm

/-- Once a universe has been built, a question for all packages has one answer in all states, and
    leaves what has been built. -/
def SteadyNodes : Prop :=
  ∀ config : LoadConfig, config.cancelled = cancelled → ∃ outcome, ∀ s v u, k.States s →
    (k.table s).get? v = some u →
      ∃ t, l.allNodes config s = (outcome, t) ∧ k.States t ∧ (k.table s).KeptIn (k.table t)

end Loader.Service

/-! ### Records -/

/-- The loader of a list of records, in any state in which it keeps universes of the records. -/
def recordService (records : List PackageRecord) (cancelled : Nat → Bool) :
    (recordLoader records).Service cancelled where
  table t := t
  build := Universe.ofRecords records
  variant := LoadConfig.variant
  inWildcards p := !p.std
  refusal := if cancelled 0 then some .cancelled else none
  States := UniverseTable.BuiltFrom records
  catalog_eq _ := rfl
  id_eq := Universe.id_of_get?_ofRecords
  staysIn := Universe.staysIn_ofRecords records
  refused := by
    intro refuse hrefuse config hconfig t _ names
    rw [Option.ite_none_right_eq_some, ← hconfig, Option.some.injEq] at hrefuse
    unfold recordLoader
    simp only [hrefuse.1, if_true, ← hrefuse.2]
  answered := by
    intro hnone config hconfig t ht names
    have hcancelled : config.cancelled 0 = false := by
      by_cases h : cancelled 0 = true
      · rw [if_pos h] at hnone
        cases hnone
      · rwa [hconfig, ← Bool.not_eq_true]
    have hrequire := ht.require config.variant
    refine ⟨_, load_recordLoader hcancelled ht names, hrequire.2,
      UniverseTable.keptIn_require t _ _, ?_⟩
    rw [UniverseTable.get?_require, hrequire.1]

theorem steadyNodes_recordService (records : List PackageRecord) (cancelled : Nat → Bool) :
    (recordService records cancelled).SteadyNodes :=
  fun config _ => ⟨_, fun t _ _ ht _ => ⟨_, allNodes_recordLoader ht, (ht.require config.variant).2,
    UniverseTable.keptIn_require t config.variant _⟩⟩

/-! ### Source trees -/

/-- The universe of a variant of a source tree, empty if there is nothing to scan. -/
def SourceTree.universe (tree : SourceTree) (v : Variant) : Universe :=
  match tree.scan? with
  | some scan => .ofScan tree.stdNames scan v
  | none => .empty

variable {tree : SourceTree} {s start : SourceState} {scan : SourceScan}

theorem SourceTree.id_of_get?_universe (h : (tree.universe v).get? id = some p) : p.id = id := by
  unfold SourceTree.universe at h
  split at h
  · exact SourceScan.id_of_get?_ofScan h
  · cases h

theorem SourceTree.staysIn_universe (tree : SourceTree) (v : Variant) :
    Universe.StaysIn (tree.universe v) v := by
  unfold SourceTree.universe
  split
  · exact Universe.staysIn_ofScan tree.stdNames _ v
  · exact fun _ _ h => by cases h

/-- A scan is cancelled at the same times in all configurations that are. -/
theorem SourceTree.interrupts_congr {other : LoadConfig} (h : config.cancelled = other.cancelled)
    (asked : Nat) (scan : SourceScan) :
    SourceTree.interrupts config asked scan = SourceTree.interrupts other asked scan := by
  unfold SourceTree.interrupts
  rw [h]

/-- A source tree of which no load gets a universe. -/
def refusingService (tree : SourceTree) (cancelled : Nat → Bool) (refuse : List String → LoadError)
    (States : SourceState → Prop)
    (hrefused : ∀ {config : LoadConfig}, config.cancelled = cancelled → ∀ {s}, States s →
      ∀ names, (sourceLoader tree).load config names s = (.error (refuse names), s)) :
    (sourceLoader tree).Service cancelled where
  table := SourceState.universes
  build := tree.universe
  variant := LoadConfig.sourceVariant
  inWildcards p := !p.files.isEmpty
  refusal := some refuse
  States := States
  catalog_eq _ := rfl
  id_eq := SourceTree.id_of_get?_universe
  staysIn := tree.staysIn_universe
  refused h _ hconfig _ hs names := by
    rw [← Option.some.inj h]
    exact hrefused hconfig hs names
  answered h := by cases h

/-- A source tree of which all loads get a universe: the scan has been made, or is not
    cancelled. -/
def scanningService (tree : SourceTree) (cancelled : Nat → Bool) (hcancelled : cancelled 0 = false)
    (hscan : tree.scan? = some scan) : (sourceLoader tree).Service cancelled where
  table := SourceState.universes
  build := tree.universe
  variant := LoadConfig.sourceVariant
  inWildcards p := !p.files.isEmpty
  refusal := none
  States s := s.FoundIn tree ∧
    (s.scan = none → SourceTree.interrupts { cancelled := cancelled } 1 scan = false)
  catalog_eq _ := rfl
  id_eq := SourceTree.id_of_get?_universe
  staysIn := tree.staysIn_universe
  refused h := by cases h
  answered := by
    intro _ config hconfig s hs names
    have hbuild : tree.universe config.sourceVariant =
        Universe.ofScan tree.stdNames scan config.sourceVariant := by
      unfold SourceTree.universe
      rw [hscan]
    have hends : s.scan = none → SourceTree.interrupts config 1 scan = false := by
      intro hnone
      have hsame : config.cancelled = ({ cancelled := cancelled } : LoadConfig).cancelled := hconfig
      rw [SourceTree.interrupts_congr hsame]
      exact hs.2 hnone
    have hload := load_of_universe (hconfig ▸ hcancelled)
      (universe?_of_scan?_some hs.1 hscan hends) names
    refine ⟨s.requiring tree scan config.sourceVariant, ?_, ⟨hs.1.requiring hscan _, ?_⟩, ?_, ?_⟩
    · rw [hbuild, hload]
    · exact fun hnone => by cases hnone
    · exact UniverseTable.keptIn_require s.universes _ _
    · rw [hbuild]
      exact hs.1.get?_requiring hscan _

/-- Where a universe has been built the scan has been made, so nobody asks whether it is
    cancelled. -/
theorem steadyNodes_of_foundIn {k : (sourceLoader tree).Service cancelled}
    (htable : k.table = SourceState.universes) (hfound : ∀ s, k.States s → s.FoundIn tree)
    (hrequiring : ∀ s scan v, k.States s → s.scan = some scan → tree.scan? = some scan →
      k.States (s.requiring tree scan v)) : k.SteadyNodes := by
  refine fun config _ => ⟨.ok (tree.universe config.sourceVariant), fun s v u hs hu => ?_⟩
  rw [htable] at hu ⊢
  rcases (hfound s hs).universes v u hu with ⟨scan, hmade, -⟩
  have hscan := (hfound s hs).scan scan hmade
  refine ⟨_, ?_, hrequiring s scan config.sourceVariant hs hmade hscan,
    UniverseTable.keptIn_require s.universes _ _⟩
  unfold SourceTree.universe
  rw [hscan]
  refine universe?_of_scan?_some (hfound s hs) hscan fun hnone => ?_
  rw [hmade] at hnone
  cases hnone

/-- The loader of a source tree is a service, in whatever state it starts. -/
theorem exists_service_sourceLoader (h : start.FoundIn tree) (cancelled : Nat → Bool) :
    ∃ k : (sourceLoader tree).Service cancelled, k.States start ∧ k.SteadyNodes := by
  by_cases hcancelled : cancelled 0 = true
  · -- Loads are cancelled before they start.
    refine ⟨refusingService tree cancelled .cancelled (·.FoundIn tree) ?_, h,
      steadyNodes_of_foundIn rfl (fun _ hs => hs) fun _ _ v hs _ hscan => hs.requiring hscan v⟩
    exact fun hconfig s _ names => load_of_cancelled (hconfig ▸ hcancelled) names s
  rw [Bool.not_eq_true] at hcancelled
  cases hscan : tree.scan? with
  | none =>
      refine ⟨refusingService tree cancelled (fun _ => .invalidRoot tree.rootPath)
        (·.FoundIn tree) ?_, h,
        steadyNodes_of_foundIn rfl (fun _ hs => hs) fun _ _ v hs _ hscan => hs.requiring hscan v⟩
      exact fun hconfig s hs names => load_of_error (hconfig ▸ hcancelled)
        (universe?_of_scan?_none hs hscan _ 1) names
  | some scan =>
      by_cases hinterrupts : start.scan = none ∧
          SourceTree.interrupts { cancelled := cancelled } 1 scan = true
      · -- Each load is cancelled during the scan, and leaves none behind.
        refine ⟨refusingService tree cancelled (fun _ => .cancelled [tree.rootPath])
          (fun s => s.FoundIn tree ∧ s.scan = none) ?_, ⟨h, hinterrupts.1⟩,
          steadyNodes_of_foundIn rfl (fun _ hs => hs.1) fun s _ _ hs hmade _ => ?_⟩
        · intro config hconfig s hs names
          refine load_of_error (hconfig ▸ hcancelled)
            (universe?_of_interrupts hs.1 hscan hs.2 ?_) names
          have hsame : config.cancelled = ({ cancelled := cancelled } : LoadConfig).cancelled :=
            hconfig
          rw [SourceTree.interrupts_congr hsame]
          exact hinterrupts.2
        · rw [hs.2] at hmade
          cases hmade
      · rw [not_and, Bool.not_eq_true] at hinterrupts
        refine ⟨scanningService tree cancelled hcancelled hscan, ⟨h, hinterrupts⟩,
          steadyNodes_of_foundIn rfl (fun _ hs => hs.1) fun _ _ v hs _ hscan =>
            ⟨hs.1.requiring hscan v, fun hnone => by cases hnone⟩⟩

/-! ### Loads in a calculation -/

/-- The outcome of a load as a set. -/
def Loader.Service.outcome {l : Loader σ NodeRef} (k : l.Service cancelled) (config : LoadConfig)
    (names : List String) : Except Failure (PackageSet NodeRef) :=
  match k.answer config names with
  | .ok roots => .ok (.ofRoots roots)
  | .error e => .error (.error (.load e))

variable {parties : Calculator σ NodeRef} {state : CalcState σ NodeRef}

/-- A load in the middle of a calculation has the same outcome in all states. It leaves the
    variables alone, and what has been built. -/
theorem Calc.loadRoots_eq (k : parties.loader.Service cancelled)
    (hconfig : config.cancelled = cancelled) (hstate : k.States state.loader)
    (names : List String) :
    ∃ t, loadRoots parties config names state = (k.outcome config names, t) ∧
      k.States t.loader ∧ t.bindings = state.bindings ∧
      (k.table state.loader).KeptIn (k.table t.loader) ∧
      ∀ a, k.outcome config names = .ok a →
        (k.table t.loader).get? (k.variant config) = some (k.build (k.variant config)) := by
  rcases k.load_eq hconfig hstate names with ⟨after, hload, hafter, hkept, hbuilt⟩
  unfold Loader.Service.outcome loadRoots
  cases hanswer : k.answer config names with
  | error e =>
      rw [hanswer] at hload
      exact ⟨_, bind_error (loadNodes_of_error hload), hafter, rfl, hkept, fun _ h => by cases h⟩
  | ok roots =>
      rw [hanswer] at hload
      exact ⟨_, bind_ok (loadNodes_of_ok hload), hafter, rfl, hkept,
        fun _ _ => hbuilt roots hanswer⟩

end PackageAlgebra
