import PackageAlgebra.Proofs.Load.Modules
import PackageAlgebra.Proofs.Load.Variants

/-!
# Loads after Histories

What a loader answers does not depend on what it was asked before.

The loader of a list of records keeps universes, and that of a source tree keeps the scan as well.
Both keep only what has been built to its end: a load that fails leaves its state as it is. So
whatever is kept is what would be built anew, under the part of the configuration that a
universe depends on, and the nodes of an answer lead to the same nodes whether their universe has
just been built or has long been there.

One difference is left. A scan asks again and again whether it has been cancelled, and where it
has been made before nobody asks. A load that would be cancelled then gets on, to the answer
that it would have got if it had not been cancelled.

## Main definitions

* `Universe.StaysIn`: The references of a universe name its own variant.
* `SourceState.FoundIn`: A state keeps what is found in a source tree.
* `SourceState.requiring`: The state once a universe of a source tree has been found.
* `LoadConfig.uncancelled`: A configuration that is never cancelled.

## Theorems

* `Loader.sameAnswer_resolveIn`: Answers from one universe are the same in all tables.
* `SourceState.FoundIn.after`: What is kept is what would be found anew.
* `load_after_history`: Loads after any history are those of a new loader.
-/

namespace PackageAlgebra

variable {σ : Type} {records : List PackageRecord} {tree : SourceTree} {config other : LoadConfig}
  {patterns : List String} {u : Universe} {t t' : UniverseTable} {v : Variant} {id : String}
  {p : Node NodeRef} {s : SourceState} {scan : SourceScan} {asked : Nat}

/-! ### Answers from a universe -/

/-- The references of a universe name its own variant. -/
def Universe.StaysIn (u : Universe) (v : Variant) : Prop :=
  ∀ id p, u.get? id = some p → ∀ e ∈ p.imports.entries, e.2.variant = v

theorem Universe.staysIn_ofRecords (records : List PackageRecord) (v : Variant) :
    Universe.StaysIn (Universe.ofRecords records v) v := by
  intro id p hp e he
  rcases Universe.get?_ofRecords_eq_some hp with ⟨r, -, -, -, rfl⟩
  rw [(Universe.mem_importsOf_iff.1 he).2.2]

theorem Universe.staysIn_ofScan (stdNames : List String) (scan : SourceScan) (v : Variant) :
    Universe.StaysIn (Universe.ofScan stdNames scan v) v := by
  intro id p hp e he
  rcases SourceScan.get?_ofScan_eq_some_iff.1 hp with ⟨-, m, -, rfl⟩ | ⟨-, -, rfl⟩ | ⟨-, -, -, rfl⟩
  · rw [(OrderedMap.mem_entries_ofList_map.1 he).2]
  · exact absurd he List.not_mem_nil
  · exact absurd he List.not_mem_nil

/-- The nodes of a universe lead to the same nodes in all tables that have it. -/
theorem Universe.StaysIn.sameBelow (hstays : Universe.StaysIn u v) (ht : t.get? v = some u)
    (ht' : t'.get? v = some u) (hp : u.get? id = some p) :
    p.SameBelow t.catalog t'.catalog := by
  have hfind : ∀ {t : UniverseTable} {a : Node NodeRef} {e : String × NodeRef},
      t.get? v = some u → (∃ id, u.get? id = some a) → e ∈ a.imports.entries →
      t.catalog.get? e.2 = u.get? e.2.id := by
    rintro t a e ht ⟨id, ha⟩ he
    rw [← hstays id a ha e he] at ht
    exact UniverseTable.get?_catalog ht
  refine Node.sameBelow_of_closed (P := fun a => ∃ id, u.get? id = some a) ⟨id, hp⟩ ?_ ?_
  · intro a ha b hb
    rcases List.mem_filterMap.1 hb with ⟨ref, href, hget⟩
    rcases List.mem_map.1 href with ⟨e, he, rfl⟩
    rw [hfind ht ha he] at hget
    exact ⟨e.2.id, hget⟩
  · intro a ha e he
    rw [hfind ht ha he, hfind ht' ha he]

/-- Answers from one universe are the same in all states whose tables have it. -/
theorem Loader.sameAnswer_resolveIn {l : Loader σ NodeRef} (table : σ → UniverseTable)
    (hcatalog : ∀ s, l.catalog s = (table s).catalog) (hstays : Universe.StaysIn u v) {s s' : σ}
    (hs : (table s).get? v = some u) (hs' : (table s').get? v = some u)
    (inWildcards : Node NodeRef → Bool) (config : LoadConfig) (patterns : List String) :
    l.SameAnswer (resolveIn u inWildcards config patterns, s)
      (resolveIn u inWildcards config patterns, s') := by
  refine ⟨rfl, fun roots hroots p hp => ?_⟩
  rcases exists_get?_of_resolveIn hroots hp with ⟨id, hid⟩
  rw [hcatalog, hcatalog]
  exact hstays.sameBelow hs hs' hid

/-- The same errors are the same answers. -/
theorem Loader.sameAnswer_error {ρ : Type} (l : Loader σ ρ) (e : LoadError) (s s' : σ) :
    l.SameAnswer (.error e, s) (.error e, s') :=
  ⟨rfl, fun _ hroots => absurd hroots (by simp only [reduceCtorEq, not_false_eq_true])⟩

/-! ### Loads from records -/

/-- Loads from records are those of a new loader. -/
theorem sameAnswer_recordLoader (h : t.BuiltFrom records) (config : LoadConfig)
    (patterns : List String) :
    (recordLoader records).SameAnswer ((recordLoader records).load config patterns t)
      ((recordLoader records).load config patterns .empty) := by
  by_cases hcancelled : config.cancelled 0 = true
  · unfold recordLoader
    simp only [hcancelled, if_true]
    exact Loader.sameAnswer_error _ _ t .empty
  · rw [Bool.not_eq_true] at hcancelled
    have hempty : UniverseTable.BuiltFrom records .empty := UniverseTable.builtFrom_empty
    rw [load_recordLoader hcancelled h, load_recordLoader hcancelled hempty]
    refine Loader.sameAnswer_resolveIn (fun t => t) (fun _ => rfl)
      (Universe.staysIn_ofRecords records config.variant) ?_ ?_ _ config patterns
    · rw [UniverseTable.get?_require, (h.require config.variant).1]
    · rw [UniverseTable.get?_require, (hempty.require config.variant).1]

/-- The variant of a configuration does not depend on the case, the order or the repetition of the
    tags. -/
theorem variant_eq_of_tagSet_eq (htests : other.tests = config.tests)
    (htags : other.tagSet = config.tagSet) : other.variant = config.variant := by
  unfold LoadConfig.variant
  rw [htests, activeTags_eq_iff.2 htags]

/-- A load from records depends on the tests, on the cancellation and on the set of the tags. -/
theorem load_recordLoader_congr (htests : other.tests = config.tests)
    (hcancelled : other.cancelled = config.cancelled) (htags : other.tagSet = config.tagSet) :
    (recordLoader records).load other patterns t =
      (recordLoader records).load config patterns t := by
  unfold recordLoader resolveIn
  simp only [hcancelled, variant_eq_of_tagSet_eq htests htags, htests]

/-! ### Loads from a source tree -/

/-- A state keeps what is found in a source tree: its scan, and universes of the scan. -/
structure SourceState.FoundIn (tree : SourceTree) (s : SourceState) : Prop where
  -- The scan is that of the tree.
  scan : ∀ scan, s.scan = some scan → tree.scan? = some scan
  -- Universes are those of the scan, which has been made.
  universes : ∀ v u, s.universes.get? v = some u →
    ∃ scan, s.scan = some scan ∧ u = Universe.ofScan tree.stdNames scan v

theorem SourceState.foundIn_empty : SourceState.FoundIn tree {} := by
  constructor
  · intro scan hscan
    cases hscan
  · intro v u hu
    cases hu

/-- Where no scan has been made, there is no universe. -/
theorem SourceState.FoundIn.get?_universes (h : s.FoundIn tree) (hnone : s.scan = none)
    (v : Variant) : s.universes.get? v = none := by
  cases hkept : s.universes.get? v with
  | none => rfl
  | some u =>
      rcases h.universes v u hkept with ⟨scan, hscan, -⟩
      rw [hnone] at hscan
      cases hscan

/-- Without a directory there is no universe, and nothing changes. -/
theorem universe?_of_scan?_none (h : s.FoundIn tree) (hscan : tree.scan? = none)
    (config : LoadConfig) (asked : Nat) :
    tree.universe? config asked s = (.error (.invalidRoot tree.rootPath), s) := by
  have hnone : s.scan = none := by
    cases hkept : s.scan with
    | none => rfl
    | some scan =>
        rw [h.scan scan hkept] at hscan
        cases hscan
  unfold SourceTree.universe? SourceTree.require
  simp only [h.get?_universes hnone, hnone, hscan]

/-- A scan that is cancelled leaves nothing behind. -/
theorem universe?_of_interrupts (h : s.FoundIn tree) (hscan : tree.scan? = some scan)
    (hnone : s.scan = none) (hinterrupts : SourceTree.interrupts config asked scan = true) :
    tree.universe? config asked s = (.error (.cancelled [tree.rootPath]), s) := by
  unfold SourceTree.universe? SourceTree.require
  simp only [h.get?_universes hnone, hnone, hscan, hinterrupts, if_true]

/-- The state of a loader once the universe of a variant has been found. -/
def SourceState.requiring (s : SourceState) (tree : SourceTree) (scan : SourceScan) (v : Variant) :
    SourceState :=
  ⟨some scan, (s.universes.require v (Universe.ofScan tree.stdNames scan)).2⟩

/-- Universes that are kept are those of the scan of the tree. -/
theorem SourceState.FoundIn.eq_ofScan (h : s.FoundIn tree) (hscan : tree.scan? = some scan)
    (hu : s.universes.get? v = some u) :
    s.scan = some scan ∧ u = Universe.ofScan tree.stdNames scan v := by
  rcases h.universes v u hu with ⟨scan', hkept, rfl⟩
  rw [h.scan scan' hkept, Option.some.injEq] at hscan
  exact hscan ▸ ⟨hkept, rfl⟩

/-- Where the scan has been made or is made to its end, the universe is that of the scan. -/
theorem universe?_of_scan?_some (h : s.FoundIn tree) (hscan : tree.scan? = some scan)
    (hends : s.scan = none → SourceTree.interrupts config asked scan = false) :
    tree.universe? config asked s =
      (.ok (Universe.ofScan tree.stdNames scan config.sourceVariant),
        s.requiring tree scan config.sourceVariant) := by
  unfold SourceTree.universe? SourceTree.require SourceState.requiring
  cases hget : s.universes.get? config.sourceVariant with
  | some u =>
      rcases h.eq_ofScan hscan hget with ⟨hkept, rfl⟩
      rw [UniverseTable.require_of_some hget, ← hkept]
  | none =>
      rw [UniverseTable.require_of_none hget]
      cases hkept : s.scan with
      | none => simp only [hscan, hends hkept, Bool.false_eq_true, if_false,
          UniverseTable.require_of_none hget]
      | some scan' =>
          have hsame : scan' = scan := Option.some.inj ((h.scan scan' hkept).symm.trans hscan)
          simp only [hkept, hsame, UniverseTable.require_of_none hget]

/-- The universe that has been found is that of the scan. -/
theorem SourceState.FoundIn.get?_requiring (h : s.FoundIn tree) (hscan : tree.scan? = some scan)
    (v : Variant) :
    (s.requiring tree scan v).universes.get? v = some (Universe.ofScan tree.stdNames scan v) := by
  unfold SourceState.requiring
  rw [UniverseTable.get?_require, Option.some.injEq]
  cases hget : s.universes.get? v with
  | none => rw [UniverseTable.require_of_none hget]
  | some u => rw [UniverseTable.require_of_some hget, (h.eq_ofScan hscan hget).2]

theorem SourceState.FoundIn.requiring (h : s.FoundIn tree) (hscan : tree.scan? = some scan)
    (v : Variant) : (s.requiring tree scan v).FoundIn tree := by
  constructor
  · intro scan' hscan'
    exact hscan.trans hscan'
  · intro w u hu
    refine ⟨scan, rfl, ?_⟩
    rcases UniverseTable.get?_of_get?_require hu with hkept | ⟨rfl, hbuilt⟩
    · exact (h.eq_ofScan hscan hkept).2
    · exact hbuilt

/-- A universe leaves the state as it is, or with what has been found. -/
theorem SourceState.FoundIn.universe? (h : s.FoundIn tree) (config : LoadConfig) (asked : Nat) :
    (tree.universe? config asked s).2.FoundIn tree := by
  cases hscan : tree.scan? with
  | none => rwa [universe?_of_scan?_none h hscan]
  | some scan =>
      by_cases hinterrupts : s.scan = none ∧ SourceTree.interrupts config asked scan = true
      · rwa [universe?_of_interrupts h hscan hinterrupts.1 hinterrupts.2]
      · rw [not_and, Bool.not_eq_true] at hinterrupts
        rw [universe?_of_scan?_some h hscan hinterrupts]
        exact h.requiring hscan config.sourceVariant

/-- After any history, what is kept is what would be found anew. -/
theorem SourceState.FoundIn.after (h : s.FoundIn tree) (history : List Question) :
    ((sourceLoader tree).after history s).FoundIn tree := by
  refine Loader.after_of_kept (fun s q hs => ?_) history h
  cases q with
  | load config patterns =>
      unfold Loader.afterOne sourceLoader
      by_cases hcancelled : config.cancelled 0 = true
      · simpa only [hcancelled, if_true] using hs
      · have huniverse := hs.universe? config 1
        simp only [hcancelled, Bool.false_eq_true, if_false]
        split
        · rename_i hanswer
          rwa [hanswer] at huniverse
        · rename_i hanswer
          rwa [hanswer] at huniverse
  | allNodes config => exact hs.universe? config 0

/-- A load that has been cancelled before it starts fails. -/
theorem load_of_cancelled (hcancelled : config.cancelled 0 = true) (patterns : List String)
    (s : SourceState) :
    (sourceLoader tree).load config patterns s = (.error (.cancelled patterns), s) := by
  unfold sourceLoader
  simp only [hcancelled, if_true]

/-- A load without a universe fails. -/
theorem load_of_error {e : LoadError} {s' : SourceState} (hcancelled : config.cancelled 0 = false)
    (huniverse : tree.universe? config 1 s = (.error e, s')) (patterns : List String) :
    (sourceLoader tree).load config patterns s = (.error e, s') := by
  unfold sourceLoader
  simp only [hcancelled, huniverse, Bool.false_eq_true, if_false]

/-- A load with a universe answers from it. -/
theorem load_of_universe {s' : SourceState} (hcancelled : config.cancelled 0 = false)
    (huniverse : tree.universe? config 1 s = (.ok u, s')) (patterns : List String) :
    (sourceLoader tree).load config patterns s =
      (resolveIn u (fun p => !p.files.isEmpty) config patterns, s') := by
  unfold sourceLoader
  simp only [hcancelled, huniverse, Bool.false_eq_true, if_false]

/-- Loads that get a scan have the same answer, whether it is made or has been made before. -/
theorem sameAnswer_of_scan (h : s.FoundIn tree) (hscan : tree.scan? = some scan)
    (config other : LoadConfig) (hcancelled : config.cancelled 0 = false)
    (hother : other.cancelled 0 = false) (htests : other.tests = config.tests)
    (hvariant : other.sourceVariant = config.sourceVariant)
    (hends : s.scan = none → SourceTree.interrupts config 1 scan = false)
    (hotherEnds : SourceTree.interrupts other 1 scan = false) (patterns : List String) :
    (sourceLoader tree).SameAnswer ((sourceLoader tree).load config patterns s)
      ((sourceLoader tree).load other patterns {}) := by
  have hempty : SourceState.FoundIn tree {} := SourceState.foundIn_empty
  have huniverse := universe?_of_scan?_some hempty hscan fun _ => hotherEnds
  rw [hvariant] at huniverse
  rw [load_of_universe hcancelled (universe?_of_scan?_some h hscan hends) patterns,
    load_of_universe hother huniverse patterns]
  have hresolve : resolveIn (Universe.ofScan tree.stdNames scan config.sourceVariant)
      (fun p => !p.files.isEmpty) other patterns =
      resolveIn (Universe.ofScan tree.stdNames scan config.sourceVariant)
        (fun p => !p.files.isEmpty) config patterns := by
    unfold resolveIn
    rw [htests]
  rw [hresolve]
  exact Loader.sameAnswer_resolveIn SourceState.universes (fun _ => rfl)
    (Universe.staysIn_ofScan tree.stdNames scan config.sourceVariant)
    (h.get?_requiring hscan config.sourceVariant) (hempty.get?_requiring hscan config.sourceVariant)
    _ config patterns

/-- A configuration that asks for the same and is never cancelled. -/
def LoadConfig.uncancelled (config : LoadConfig) : LoadConfig :=
  { config with cancelled := fun _ => false }

/-- Loads from a source tree are those of a new loader, or of one that is not cancelled during the
    scan. -/
theorem sameAnswer_sourceLoader (h : s.FoundIn tree) (config : LoadConfig)
    (patterns : List String) :
    (sourceLoader tree).SameAnswer ((sourceLoader tree).load config patterns s)
        ((sourceLoader tree).load config patterns {}) ∨
      ∃ scan, s.scan = some scan ∧ SourceTree.interrupts config 1 scan = true ∧
        ((sourceLoader tree).load config patterns {}).1 = .error (.cancelled [tree.rootPath]) ∧
        (sourceLoader tree).SameAnswer ((sourceLoader tree).load config patterns s)
          ((sourceLoader tree).load config.uncancelled patterns {}) := by
  have hempty : SourceState.FoundIn tree {} := SourceState.foundIn_empty
  by_cases hcancelled : config.cancelled 0 = true
  · left
    rw [load_of_cancelled hcancelled patterns s, load_of_cancelled hcancelled patterns {}]
    exact Loader.sameAnswer_error _ _ s {}
  rw [Bool.not_eq_true] at hcancelled
  cases hscan : tree.scan? with
  | none =>
      left
      rw [load_of_error hcancelled (universe?_of_scan?_none h hscan config 1),
        load_of_error hcancelled (universe?_of_scan?_none hempty hscan config 1)]
      exact Loader.sameAnswer_error _ _ s {}
  | some scan =>
      by_cases hinterrupts : SourceTree.interrupts config 1 scan = true
      · have hfresh := load_of_error hcancelled
          (universe?_of_interrupts hempty hscan rfl hinterrupts) patterns
        cases hkept : s.scan with
        | none =>
            left
            rw [hfresh, load_of_error hcancelled
              (universe?_of_interrupts h hscan hkept hinterrupts)]
            exact Loader.sameAnswer_error _ _ s {}
        | some scan' =>
            -- The scan that has been made is not asked for again.
            have hsame : scan' = scan := Option.some.inj ((h.scan scan' hkept).symm.trans hscan)
            have hnone : s.scan = none → SourceTree.interrupts config 1 scan = false := by
              intro hnone
              rw [hkept] at hnone
              cases hnone
            have hquiet : SourceTree.interrupts config.uncancelled 1 scan = false :=
              List.any_eq_false.2 fun _ _ => Bool.false_ne_true
            right
            refine ⟨scan', rfl, hsame ▸ hinterrupts, congrArg Prod.fst hfresh, ?_⟩
            exact sameAnswer_of_scan h hscan config config.uncancelled hcancelled rfl rfl rfl hnone
              hquiet patterns
      · rw [Bool.not_eq_true] at hinterrupts
        left
        exact sameAnswer_of_scan h hscan config config hcancelled hcancelled rfl rfl
          (fun _ => hinterrupts) hinterrupts patterns

/-- Two configurations with or without typing alike have universes of the same tags. -/
theorem tags_sourceVariant_congr (h : typingTag ∈ config.tagSet ↔ typingTag ∈ other.tagSet) :
    config.sourceVariant.tags = other.sourceVariant.tags := by
  rw [← mem_activeTags_iff, ← mem_activeTags_iff, ← List.contains_iff_mem,
    ← List.contains_iff_mem, Bool.coe_iff_coe] at h
  unfold LoadConfig.sourceVariant
  rw [h]

/-- A load from a source tree depends on the tests, on the cancellation and on whether imports for
    type checking count. -/
theorem load_sourceLoader_congr (htests : other.tests = config.tests)
    (hcancelled : other.cancelled = config.cancelled)
    (htyping : typingTag ∈ other.tagSet ↔ typingTag ∈ config.tagSet) :
    (sourceLoader tree).load other patterns s = (sourceLoader tree).load config patterns s := by
  have hvariant : other.sourceVariant = config.sourceVariant := by
    change Variant.mk other.tests other.sourceVariant.tags =
      Variant.mk config.tests config.sourceVariant.tags
    rw [htests, tags_sourceVariant_congr htyping]
  have huniverse : tree.universe? other 1 s = tree.universe? config 1 s := by
    unfold SourceTree.universe? SourceTree.require SourceTree.interrupts
    rw [hvariant, hcancelled]
  unfold sourceLoader resolveIn
  simp only [hcancelled, huniverse, htests]

/-- After any history of questions a load has the answer that it would have from a new loader: the
    same error, or the same nodes, which lead to the same nodes. Only where a new loader would be
    cancelled during a scan, and the scan has already been made, the answer is that of a new loader
    which is not cancelled. Of its configuration, a load depends on the tests, on the cancellation
    and on the set of the tags, and from a source tree on one of the tags only. -/
theorem load_after_history (records : List PackageRecord) (tree : SourceTree)
    (history : List Question) (config : LoadConfig) (patterns : List String) :
    (let l := recordLoader records
      let kept := l.after history .empty
      l.SameAnswer (l.load config patterns kept) (l.load config patterns .empty) ∧
        ∀ other : LoadConfig, other.tests = config.tests → other.cancelled = config.cancelled →
          other.tagSet = config.tagSet → l.load other patterns kept = l.load config patterns kept) ∧
    (let l := sourceLoader tree
      let kept := l.after history {}
      (l.SameAnswer (l.load config patterns kept) (l.load config patterns {}) ∨
        ∃ scan, kept.scan = some scan ∧ SourceTree.interrupts config 1 scan = true ∧
          (l.load config patterns {}).1 = .error (.cancelled [tree.rootPath]) ∧
          l.SameAnswer (l.load config patterns kept)
            (l.load config.uncancelled patterns {})) ∧
        ∀ other : LoadConfig, other.tests = config.tests → other.cancelled = config.cancelled →
          (typingTag ∈ other.tagSet ↔ typingTag ∈ config.tagSet) →
          l.load other patterns kept = l.load config patterns kept) := by
  refine ⟨⟨?_, fun other htests hcancelled htags => ?_⟩,
    ⟨?_, fun other htests hcancelled htyping => ?_⟩⟩
  · exact sameAnswer_recordLoader (UniverseTable.builtFrom_empty.after history) config patterns
  · exact load_recordLoader_congr htests hcancelled htags
  · exact sameAnswer_sourceLoader (SourceState.foundIn_empty.after history) config patterns
  · exact load_sourceLoader_congr htests hcancelled htyping

/-- A tree of one module. -/
def oneModule : SourceTree where
  files := ⟨.directory [("shop.py", .file [])], "/"⟩
  root := "/"
  stdNames := ["os"]

/-- A cancelled load, a load of an unknown name, and a look at everything. -/
def mixedHistory : List Question :=
  [.load { cancelled := fun _ => true } ["a"], .load { tests := true } ["lost"],
    .allNodes { tags := ["fast"] }]

/-- After such a history, tags in another case get the packages that a new loader would give. -/
theorem load_after_history_tagged :
    (((recordLoader taggedRecords).load { env := ["A=1"], tags := ["fast", "Fast"] } ["..."]
        ((recordLoader taggedRecords).after mixedHistory .empty)).1.toOption.map
          (·.map Node.id)) = some ["a", "b"] ∧
      (sourceLoader oneModule).load { tags := ["fast"] } ["..."]
          ((sourceLoader oneModule).after mixedHistory {}) =
        (sourceLoader oneModule).load {} ["..."]
          ((sourceLoader oneModule).after mixedHistory {}) := by
  have htags : ({ env := ["A=1"], tags := ["fast", "Fast"] } : LoadConfig).tagSet =
      ({ tags := ["FAST"] } : LoadConfig).tagSet := by
    have hlower : Text.lower "FAST" = "fast" ∧ Text.lower "Fast" = "fast" ∧
        Text.lower "fast" = "fast" := by decide +kernel
    ext tag
    simp only [LoadConfig.tagSet, Set.mem_ofPred_eq, List.mem_cons, List.not_mem_nil, or_false,
      exists_eq_or_imp, exists_eq_left, hlower, or_self]
  have htyping : typingTag ∈ ({ tags := ["fast"] } : LoadConfig).tagSet ↔
      typingTag ∈ ({} : LoadConfig).tagSet := by
    rw [← mem_activeTags_iff, ← mem_activeTags_iff]
    decide +kernel
  rcases load_after_history taggedRecords oneModule mixedHistory { tags := ["FAST"] } ["..."] with
    ⟨⟨hsame, hother⟩, -⟩
  rcases load_after_history taggedRecords oneModule mixedHistory {} ["..."] with ⟨-, -, hsource⟩
  refine ⟨?_, hsource { tags := ["fast"] } rfl rfl htyping⟩
  rw [hother { env := ["A=1"], tags := ["fast", "Fast"] } rfl rfl htags, hsame.1]
  decide +kernel

end PackageAlgebra
