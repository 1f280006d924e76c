import PackageAlgebra.Load.FromSource
import PackageAlgebra.Proofs.Load.History
import PackageAlgebra.Proofs.Text.Dotted

/-!
# Universes of Source Trees

What the modules of a source tree import.

Three kinds of packages share the ids of a universe: modules of the tree, packages of the standard
library, and whatever else is imported from outside the tree. An import is resolved among all
modules of the tree, those that do not exist under the configuration included, and only then it is
asked whether the module exists. That keeps the kinds apart. An import that leads into the tree
is never taken for one that leads out of it, and the name of a package outside the tree is never
that of a module, for the import would have led there.

So the node of an id can be told from the id alone, whatever the order in which packages outside
the tree come up, and the imports of a module are a matter of its references one by one.

## Main definitions

* `SourceScan.LongestIn`: The longest module that a candidate begins with.
* `SourceScan.Resolves`, `SourceScan.Outside`: An import leads to a module, or out of the tree.
* `SourceScan.Included`: A module exists under a configuration.
* `SourceScan.LeadsTo`: An import of a module leads to an id.
* `SourceScan.Links`: An import of a module leads to a node.

## Theorems

* `target?_eq_some_iff`, `target?_eq_none_iff`: What an import resolves to.
* `mem_importedIds_iff`: The ids that a module imports.
* `get?_ofScan`: The node of an id.
* `links_of_leadsTo`: The node of an id is of the kind that an import asks for.
* `ofScan_links_modules`: What modules import, and where imports stay.
-/

namespace PackageAlgebra

open Relation
open Script (Import)

variable {stdNames : List String} {scan : SourceScan} {config : LoadConfig} {v : Variant}
  {ref : Import} {m : SourceModule} {candidate target name id : String} {p q : Node NodeRef}

namespace SourceScan

/-! ### Resolving an import -/

/-- The longest module that a candidate begins with. -/
structure LongestIn (scan : SourceScan) (candidate target : String) : Prop where
  -- It is a module.
  isModule : target ∈ scan.modules.keys
  -- The candidate begins with it.
  begins : DottedPrefix target candidate
  -- No other module that the candidate begins with is longer.
  longest : ∀ other ∈ scan.modules.keys, DottedPrefix other candidate →
    other.length ≤ target.length

/-- An import leads to a module: to the longest one that a candidate begins with, where the
    candidates before begin with none. -/
def Resolves (scan : SourceScan) (ref : Import) (target : String) : Prop :=
  ∃ before candidate after, ref.candidates = before ++ candidate :: after ∧
    (∀ c ∈ before, ∀ other ∈ scan.modules.keys, ¬ DottedPrefix other c) ∧
    scan.LongestIn candidate target

/-- An import leads out of the tree: no candidate begins with a module. -/
def Outside (scan : SourceScan) (ref : Import) : Prop :=
  ∀ c ∈ ref.candidates, ∀ other ∈ scan.modules.keys, ¬ DottedPrefix other c

theorem find?_namePrefixes_eq_none_iff :
    (namePrefixes candidate).find? scan.modules.contains = none ↔
      ∀ other ∈ scan.modules.keys, ¬ DottedPrefix other candidate := by
  rw [List.find?_eq_none]
  constructor
  · intro h other hother hbegins
    exact h other (mem_namePrefixes_iff.2 hbegins) (OrderedMap.contains_iff_mem_keys.2 hother)
  · intro h other hother hmodule
    exact h other (OrderedMap.contains_iff_mem_keys.1 hmodule) (mem_namePrefixes_iff.1 hother)

theorem longestIn_of_find?
    (h : (namePrefixes candidate).find? scan.modules.contains = some target) :
    scan.LongestIn candidate target := by
  rcases List.find?_eq_some_iff_append.1 h with ⟨hmodule, longer, shorter, hnames, hnone⟩
  have hsorted := pairwise_namePrefixes candidate
  rw [hnames, List.pairwise_append, List.pairwise_cons] at hsorted
  refine ⟨OrderedMap.contains_iff_mem_keys.1 hmodule, ?_, fun other hother hbegins => ?_⟩
  · refine mem_namePrefixes_iff.1 ?_
    rw [hnames]
    exact List.mem_append_right longer List.mem_cons_self
  · -- A module among the names before would have been found.
    rw [← mem_namePrefixes_iff, hnames, List.mem_append, List.mem_cons] at hbegins
    rcases hbegins with hbefore | rfl | hafter
    · have hnot := hnone other hbefore
      rw [OrderedMap.contains_iff_mem_keys.2 hother] at hnot
      exact absurd hnot Bool.false_ne_true
    · exact Nat.le_refl _
    · exact Nat.le_of_lt (hsorted.2.1.1 other hafter)

theorem find?_namePrefixes_eq_some_iff :
    (namePrefixes candidate).find? scan.modules.contains = some target ↔
      scan.LongestIn candidate target := by
  refine ⟨longestIn_of_find?, fun h => ?_⟩
  cases hfound : (namePrefixes candidate).find? scan.modules.contains with
  | none =>
      exact absurd h.begins (find?_namePrefixes_eq_none_iff.1 hfound target h.isModule)
  | some found =>
      have hother := longestIn_of_find? hfound
      have hlength : found.length = target.length := Nat.le_antisymm
        (h.longest found hother.isModule hother.begins)
        (hother.longest target h.isModule h.begins)
      rw [hother.begins.eq_of_length h.begins hlength]

/-- What an import resolves to. -/
theorem target?_eq_some_iff : scan.target? ref = some target ↔ scan.Resolves ref target := by
  unfold target? Resolves
  rw [List.find?_flatMap, List.findSome?_eq_some_iff]
  simp only [find?_namePrefixes_eq_none_iff, find?_namePrefixes_eq_some_iff]
  constructor
  · rintro ⟨before, candidate, after, hsplit, hlongest, hnone⟩
    exact ⟨before, candidate, after, hsplit, hnone, hlongest⟩
  · rintro ⟨before, candidate, after, hsplit, hnone, hlongest⟩
    exact ⟨before, candidate, after, hsplit, hlongest, hnone⟩

theorem target?_eq_none_iff : scan.target? ref = none ↔ scan.Outside ref := by
  unfold target? Outside
  rw [List.find?_flatMap, List.findSome?_eq_none_iff]
  simp only [find?_namePrefixes_eq_none_iff]

/-- An import leads to one module. -/
theorem Resolves.unique {other : String} (h : scan.Resolves ref target)
    (hother : scan.Resolves ref other) : target = other := by
  rw [← target?_eq_some_iff] at h hother
  exact Option.some.inj (h.symm.trans hother)

/-- An import does not lead both into the tree and out of it. -/
theorem Resolves.not_outside (h : scan.Resolves ref target) : ¬ scan.Outside ref := by
  rw [← target?_eq_none_iff, target?_eq_some_iff.2 h]
  exact Option.some_ne_none target

/-- What the last candidate begins with is not the name of a module, if the import leads out of
    the tree. -/
theorem Outside.not_mem_keys {last : String} (h : scan.Outside ref)
    (hlast : ref.candidates.getLast? = some last) :
    Text.beforeFirst '.' last ∉ scan.modules.keys := by
  intro hmodule
  exact h last (List.mem_of_getLast? hlast) _ hmodule (dottedPrefix_beforeFirst last)

theorem outside?_eq_some_iff : outside? ref = some id ↔
    ∃ last, ref.candidates.getLast? = some last ∧ id = Text.beforeFirst '.' last ∧ id ≠ "" := by
  unfold outside? nonempty?
  rw [Option.bind_eq_some_iff]
  refine exists_congr fun last => and_congr_right fun _ => ?_
  by_cases hempty : Text.beforeFirst '.' last = ""
  · rw [if_pos hempty, hempty]
    constructor
    · intro h
      exact absurd h (Option.some_ne_none id).symm
    · rintro ⟨rfl, hne⟩
      exact absurd rfl hne
  · rw [if_neg hempty, Option.some.injEq]
    constructor
    · rintro rfl
      exact ⟨rfl, hempty⟩
    · rintro ⟨rfl, -⟩
      rfl

/-! ### What a module imports -/

/-- A module exists under a configuration: tests are wanted, or it is not a test package. -/
def Included (scan : SourceScan) (config : LoadConfig) (name : String) : Prop :=
  name ∈ scan.modules.keys ∧ (config.tests = true ∨ isTestPackage name = false)

theorem includes_sourceVariant_iff :
    scan.includes config.sourceVariant name = true ↔ scan.Included config name := by
  unfold includes Included LoadConfig.sourceVariant
  rw [Bool.and_eq_true, Bool.or_eq_true, Bool.not_eq_true', OrderedMap.contains_iff_mem_keys]

theorem contains_tags_sourceVariant_iff :
    config.sourceVariant.tags.contains typingTag = true ↔ typingTag ∈ config.tagSet := by
  unfold LoadConfig.sourceVariant
  rw [← mem_activeTags_iff, ← List.contains_iff_mem]
  by_cases htyping : config.activeTags.contains typingTag = true
  · simp only [htyping, if_true, iff_true]
    decide
  · simp only [htyping, if_false, iff_false, Bool.false_eq_true]
    decide

/-- An import of a module leads to a package: to a module that exists and is another one, or to
    what the last candidate begins with, if the import leads out of the tree. -/
def LeadsTo (scan : SourceScan) (config : LoadConfig) (name : String) (ref : Import)
    (id : String) : Prop :=
  (scan.Resolves ref id ∧ scan.Included config id ∧ id ≠ name) ∨
    (scan.Outside ref ∧
      ∃ last, ref.candidates.getLast? = some last ∧ id = Text.beforeFirst '.' last ∧ id ≠ "")

theorem imported?_eq_some_iff :
    scan.imported? config.sourceVariant name ref = some id ↔ scan.LeadsTo config name ref id := by
  unfold imported? LeadsTo
  rw [← outside?_eq_some_iff, ← target?_eq_some_iff, ← target?_eq_none_iff]
  cases htarget : scan.target? ref with
  | none => simp only [reduceCtorEq, false_and, false_or, true_and]
  | some target =>
      simp only [Option.some.injEq, reduceCtorEq, false_and, or_false, Bool.and_eq_true,
        decide_eq_true_eq, Option.ite_none_right_eq_some, includes_sourceVariant_iff]
      constructor
      · rintro ⟨⟨hincluded, hne⟩, rfl⟩
        exact ⟨rfl, hincluded, hne⟩
      · rintro ⟨rfl, hincluded, hne⟩
        exact ⟨⟨hincluded, hne⟩, rfl⟩

/-- The packages that a module imports are those to which its imports lead, where imports that are
    made only while types are checked need their tag. -/
theorem mem_importedIds_iff : id ∈ scan.importedIds config.sourceVariant name m ↔
    ∃ ref ∈ m.imports.imports, (ref.typeChecking = true → typingTag ∈ config.tagSet) ∧
      scan.LeadsTo config name ref id := by
  unfold importedIds activeImports
  simp only [List.mem_filterMap, List.mem_filter, imported?_eq_some_iff, Bool.or_eq_true,
    Bool.not_eq_true', contains_tags_sourceVariant_iff, ← Bool.not_eq_true, imp_iff_not_or,
    and_assoc]

/-! ### Nodes -/

/-- The node of a module under a variant, with its imports. -/
def linkedNode (scan : SourceScan) (v : Variant) (name : String) (m : SourceModule) :
    Node NodeRef :=
  { scan.moduleNode name m with
    imports := .ofList ((scan.importedIds v name m).map fun id => (id, ⟨v, id⟩)) }

/-- Apart from its imports, the node is that of the module. -/
theorem fields_linkedNode (scan : SourceScan) (v : Variant) (name : String) (m : SourceModule) :
    { scan.linkedNode v name m with imports := .empty } = scan.moduleNode name m := by
  have hempty : (scan.moduleNode name m).imports = .empty := rfl
  generalize hnode : scan.moduleNode name m = p at hempty
  unfold linkedNode
  rw [hnode, ← hempty]

/-- The packages that modules import under a variant. -/
def allImportedIds (scan : SourceScan) (v : Variant) : List String :=
  (scan.modules.entries.filter fun e => scan.includes v e.1).flatMap fun e =>
    scan.importedIds v e.1 e.2

theorem mem_allImportedIds_iff : id ∈ scan.allImportedIds v ↔
    ∃ name m, scan.modules.get? name = some m ∧ scan.includes v name = true ∧
      id ∈ scan.importedIds v name m := by
  unfold allImportedIds
  simp only [List.mem_flatMap, List.mem_filter, Prod.exists, OrderedMap.get?_eq_some_iff, and_assoc]

theorem exists_module_of_includes (h : scan.includes v id = true) :
    ∃ m, scan.modules.get? id = some m := by
  unfold includes at h
  rw [Bool.and_eq_true, OrderedMap.contains_iff_mem_keys, OrderedMap.mem_keys_iff] at h
  exact h.1

/-- Before anything is imported, there are the modules that exist, and the packages of the standard
    library that are not hidden by them. -/
theorem get?_known (stdNames : List String) (scan : SourceScan) (v : Variant) (id : String) :
    ((scan.modules.entries.filter fun e => scan.includes v e.1).foldl
      (fun u e => OrderedMap.insert u e.1 (scan.moduleNode e.1 e.2))
      (.ofList ((sortedOnce stdNames).map fun name => (name, stdNode name)))).get? id =
      if scan.includes v id then (scan.modules.get? id).map (scan.moduleNode id)
      else if id ∈ stdNames then some (stdNode id) else none := by
  have hmodules := OrderedMap.get?_foldl_insert
    (scan.modules.filter fun name _ => scan.includes v name) scan.moduleNode
    (.ofList ((sortedOnce stdNames).map fun name => (name, stdNode name))) id
  refine hmodules.trans ?_
  rw [OrderedMap.get?_filter, OrderedMap.get?_ofList_map]
  simp only [sortedOnce, List.mem_mergeSort, List.mem_eraseDups]
  by_cases hincludes : scan.includes v id = true
  · rcases exists_module_of_includes hincludes with ⟨m, hm⟩
    simp only [hincludes, hm, if_true, Option.map_some, Option.some_or]
  · simp only [hincludes, if_false, Bool.false_eq_true, Option.map_none, Option.none_or]

/-- The node of an id is that of a module, if one exists, else that of the standard library, if
    the id is one of its names, else that of a package outside the tree, if it is imported. -/
theorem get?_ofScan (stdNames : List String) (scan : SourceScan) (v : Variant) (id : String) :
    (Universe.ofScan stdNames scan v).get? id =
      if scan.includes v id then (scan.modules.get? id).map (scan.linkedNode v id)
      else if id ∈ stdNames then some (stdNode id)
      else if id ∈ scan.allImportedIds v then some (leafNode id)
      else none := by
  unfold Universe.ofScan
  rw [OrderedMap.get?_mapValues, OrderedMap.get?_foldl_insertIfNew leafNode, get?_known]
  change Option.map _ (Option.or _ (if id ∈ scan.allImportedIds v then _ else _)) = _
  by_cases hincludes : scan.includes v id = true
  · rcases exists_module_of_includes hincludes with ⟨m, hm⟩
    simp only [hincludes, hm, if_true, Option.map_some, Option.some_or]
    rfl
  · -- What is not a module that exists keeps the node that it has got.
    simp only [hincludes, if_false, Bool.false_eq_true]
    by_cases hname : id ∈ stdNames
    · cases scan.modules.get? id <;> simp only [hname, if_true, Option.some_or, Option.map_some]
    · cases scan.modules.get? id <;>
        simp only [hname, if_false, Option.none_or, Option.map_id']

theorem get?_ofScan_eq_some_iff : (Universe.ofScan stdNames scan v).get? id = some p ↔
    (scan.includes v id = true ∧ ∃ m, scan.modules.get? id = some m ∧ p = scan.linkedNode v id m) ∨
      (scan.includes v id = false ∧ id ∈ stdNames ∧ p = stdNode id) ∨
      (scan.includes v id = false ∧ id ∉ stdNames ∧ id ∈ scan.allImportedIds v ∧
        p = leafNode id) := by
  rw [get?_ofScan]
  by_cases hincludes : scan.includes v id = true
  · simp only [hincludes, if_true, Option.map_eq_some_iff, true_and, Bool.true_eq_false, false_and,
      or_false, eq_comm (b := p)]
  · by_cases hname : id ∈ stdNames
    · simp only [hincludes, hname, if_true, if_false, Bool.false_eq_true, false_and, false_or,
        true_and, not_true, or_false, Option.some.injEq, eq_comm (b := p)]
    · simp only [hincludes, hname, if_false, Bool.false_eq_true, false_and, false_or,
        true_and, not_false_eq_true, Option.ite_none_right_eq_some, Option.some.injEq,
        eq_comm (b := p)]

theorem id_of_get?_ofScan (h : (Universe.ofScan stdNames scan v).get? id = some p) : p.id = id := by
  rcases get?_ofScan_eq_some_iff.1 h with ⟨-, m, -, rfl⟩ | ⟨-, -, rfl⟩ | ⟨-, -, -, rfl⟩ <;> rfl

/-- Imports refer to the universe's own nodes, by their ids. -/
theorem own_of_get?_ofScan {t : UniverseTable}
    (ht : t.get? v = some (Universe.ofScan stdNames scan v))
    (h : (Universe.ofScan stdNames scan v).get? name = some p) {e : String × NodeRef}
    (he : e ∈ p.imports.entries) :
    ∃ q, t.catalog.get? e.2 = some q ∧ (Universe.ofScan stdNames scan v).get? e.1 = some q := by
  rcases get?_ofScan_eq_some_iff.1 h with ⟨hincludes, m, hm, rfl⟩ | ⟨-, -, rfl⟩ | ⟨-, -, -, rfl⟩
  · rcases OrderedMap.mem_entries_ofList_map.1 he with ⟨himported, href⟩
    -- What a module imports has a node of some kind.
    have hnode : ∃ q, (Universe.ofScan stdNames scan v).get? e.1 = some q := by
      have hall := mem_allImportedIds_iff.2 ⟨name, m, hm, hincludes, himported⟩
      rw [get?_ofScan, if_pos hall]
      by_cases hexists : scan.includes v e.1 = true
      · rcases exists_module_of_includes hexists with ⟨n, hn⟩
        exact ⟨_, by rw [if_pos hexists, hn, Option.map_some]⟩
      · rw [if_neg hexists]
        by_cases hname : e.1 ∈ stdNames
        · exact ⟨_, if_pos hname⟩
        · exact ⟨_, if_neg hname⟩
    rcases hnode with ⟨q, hq⟩
    refine ⟨q, ?_, hq⟩
    rwa [href, UniverseTable.get?_catalog ht]
  · exact absurd he List.not_mem_nil
  · exact absurd he List.not_mem_nil

/-- What a node imports are the universe's nodes of the ids under which it imports. -/
theorem mem_imported_iff {t : UniverseTable}
    (ht : t.get? v = some (Universe.ofScan stdNames scan v))
    (h : (Universe.ofScan stdNames scan v).get? name = some p) :
    q ∈ p.imported t.catalog ↔
      (Universe.ofScan stdNames scan v).get? q.id = some q ∧ q.id ∈ p.imports.keys := by
  unfold Node.imported OrderedMap.values OrderedMap.keys
  simp only [List.mem_filterMap, List.mem_map]
  constructor
  · rintro ⟨-, ⟨e, he, rfl⟩, hcatalog⟩
    rcases own_of_get?_ofScan ht h he with ⟨q', hq', hown⟩
    have hsame : q = q' := Option.some.inj (hcatalog.symm.trans hq')
    subst hsame
    have hid := id_of_get?_ofScan hown
    rw [← hid] at hown
    exact ⟨hown, e, he, hid.symm⟩
  · rintro ⟨hown, e, he, hid⟩
    rcases own_of_get?_ofScan ht h he with ⟨q', hq', hown'⟩
    rw [hid, hown, Option.some.injEq] at hown'
    rw [← hown'] at hq'
    exact ⟨e.2, ⟨e, he, rfl⟩, hq'⟩

/-- The node to which an import of a module leads: that of a module that exists and is another one,
    or, where the import leads out of the tree, that of the standard library or of a package
    without files. -/
inductive Links (stdNames : List String) (scan : SourceScan) (config : LoadConfig) (name : String)
    (ref : Import) (q : Node NodeRef) : Prop
  | toModule (hresolves : scan.Resolves ref q.id) (hincluded : scan.Included config q.id)
      (hother : q.id ≠ name)
  | toStandard (houtside : scan.Outside ref) {last : String}
      (hlast : ref.candidates.getLast? = some last) (hid : q.id = Text.beforeFirst '.' last)
      (hnonempty : q.id ≠ "") (hstd : q.id ∈ stdNames) (hnode : q = stdNode q.id)
  | toLeaf (houtside : scan.Outside ref) {last : String}
      (hlast : ref.candidates.getLast? = some last) (hid : q.id = Text.beforeFirst '.' last)
      (hnonempty : q.id ≠ "") (hstd : q.id ∉ stdNames) (hnode : q = leafNode q.id)

theorem Links.leadsTo (h : Links stdNames scan config name ref q) :
    scan.LeadsTo config name ref q.id := by
  cases h with
  | toModule hresolves hincluded hother => exact Or.inl ⟨hresolves, hincluded, hother⟩
  | toStandard houtside hlast hid hnonempty => exact Or.inr ⟨houtside, _, hlast, hid, hnonempty⟩
  | toLeaf houtside hlast hid hnonempty => exact Or.inr ⟨houtside, _, hlast, hid, hnonempty⟩

/-- No import of a module leads to the module itself. -/
theorem Links.not_self {ref : Import} (h : Links stdNames scan config q.id ref q) :
    q.id ∉ scan.modules.keys := by
  cases h with
  | toModule _ _ hother => exact absurd rfl hother
  | toStandard houtside hlast hid => exact hid ▸ houtside.not_mem_keys hlast
  | toLeaf houtside hlast hid => exact hid ▸ houtside.not_mem_keys hlast

/-- The node of the id to which an import leads is of the kind that the import asks for. -/
theorem links_of_leadsTo (h : scan.LeadsTo config name ref id)
    (hq : (Universe.ofScan stdNames scan config.sourceVariant).get? id = some q) :
    Links stdNames scan config name ref q := by
  have hid := id_of_get?_ofScan hq
  subst hid
  rcases h with ⟨hresolves, hincluded, hother⟩ | ⟨houtside, last, hlast, hid, hnonempty⟩
  · exact .toModule hresolves hincluded hother
  · have hmodule : q.id ∉ scan.modules.keys := hid ▸ houtside.not_mem_keys hlast
    rcases get?_ofScan_eq_some_iff.1 hq with ⟨hincludes, -⟩ | ⟨-, hstd, hnode⟩ | ⟨-, hstd, -, hnode⟩
    · exact absurd (includes_sourceVariant_iff.1 hincludes).1 hmodule
    · exact .toStandard houtside hlast hid hnonempty hstd hnode
    · exact .toLeaf houtside hlast hid hnonempty hstd hnode

/-- Whatever is imported is a module that exists, or not a module at all. -/
theorem LeadsTo.included (h : scan.LeadsTo config name ref id) (hid : id ∈ scan.modules.keys) :
    scan.Included config id := by
  rcases h with ⟨-, hincluded, -⟩ | ⟨houtside, last, hlast, rfl, -⟩
  · exact hincluded
  · exact absurd hid (houtside.not_mem_keys hlast)

/-- A module that exists has the packages to which its imports lead, and only those. -/
theorem mem_imported_module_iff {t : UniverseTable}
    (ht : t.get? config.sourceVariant =
      some (Universe.ofScan stdNames scan config.sourceVariant))
    (hm : scan.modules.get? name = some m) (hincluded : scan.Included config name) :
    q ∈ (scan.linkedNode config.sourceVariant name m).imported t.catalog ↔
      (Universe.ofScan stdNames scan config.sourceVariant).get? q.id = some q ∧
        ∃ ref ∈ m.imports.imports, (ref.typeChecking = true → typingTag ∈ config.tagSet) ∧
          Links stdNames scan config name ref q := by
  have hnode : (Universe.ofScan stdNames scan config.sourceVariant).get? name =
      some (scan.linkedNode config.sourceVariant name m) :=
    get?_ofScan_eq_some_iff.2 (.inl ⟨includes_sourceVariant_iff.2 hincluded, m, hm, rfl⟩)
  have hkeys : q.id ∈ (scan.linkedNode config.sourceVariant name m).imports.keys ↔
      q.id ∈ scan.importedIds config.sourceVariant name m := by
    unfold linkedNode
    rw [OrderedMap.mem_keys_ofList, List.map_map]
    simp only [Function.comp_def, List.map_id']
  rw [mem_imported_iff ht hnode, hkeys, mem_importedIds_iff]
  refine and_congr_right fun hq => exists_congr fun ref => and_congr_right fun _ =>
    and_congr_right fun _ => ?_
  exact ⟨fun h => links_of_leadsTo h hq, Links.leadsTo⟩

/-- A module that an import leads to exists, however far imports are followed. -/
theorem included_of_transGen {t : UniverseTable}
    (ht : t.get? config.sourceVariant =
      some (Universe.ofScan stdNames scan config.sourceVariant))
    (hp : (Universe.ofScan stdNames scan config.sourceVariant).get? name = some p)
    (hpath : TransGen (fun a b => b ∈ a.imported t.catalog) p q) :
    (Universe.ofScan stdNames scan config.sourceVariant).get? q.id = some q ∧
      (q.id ∈ scan.modules.keys → scan.Included config q.id) := by
  have hstep : ∀ {name a b},
      (Universe.ofScan stdNames scan config.sourceVariant).get? name = some a →
      b ∈ a.imported t.catalog →
      (Universe.ofScan stdNames scan config.sourceVariant).get? b.id = some b ∧
        (b.id ∈ scan.modules.keys → scan.Included config b.id) := by
    intro name a b ha hb
    rcases get?_ofScan_eq_some_iff.1 ha with ⟨hincludes, m, hm, rfl⟩ | ⟨-, -, rfl⟩ | ⟨-, -, -, rfl⟩
    · rw [mem_imported_module_iff ht hm (includes_sourceVariant_iff.1 hincludes)] at hb
      rcases hb with ⟨hown, ref, -, -, hlinks⟩
      exact ⟨hown, hlinks.leadsTo.included⟩
    · exact absurd hb List.not_mem_nil
    · exact absurd hb List.not_mem_nil
  induction hpath with
  | single hb => exact hstep hp hb
  | tail _ hb ih => exact hstep ih.1 hb

/-- An import of a module that does not exist leads nowhere. -/
theorem Resolves.not_links (h : scan.Resolves ref target)
    (hexcluded : ¬ scan.Included config target) : ¬ Links stdNames scan config name ref q := by
  intro hlinks
  rcases hlinks.leadsTo with ⟨hother, hincluded, -⟩ | ⟨houtside, -⟩
  · rw [h.unique hother] at hexcluded
    exact hexcluded hincluded
  · exact h.not_outside houtside

/-- A module does not import itself. -/
theorem not_mem_importedIds_self {t : UniverseTable}
    (ht : t.get? config.sourceVariant =
      some (Universe.ofScan stdNames scan config.sourceVariant))
    (hm : scan.modules.get? name = some m) (hincluded : scan.Included config name) :
    name ∉ (scan.linkedNode config.sourceVariant name m).importedIds t.catalog := by
  intro hself
  rcases List.mem_map.1 hself with ⟨q, hq, rfl⟩
  rw [mem_imported_module_iff ht hm hincluded] at hq
  rcases hq with ⟨-, ref, -, -, hlinks⟩
  exact hlinks.not_self hincluded.1

/-- A node is that of a module that exists, that of the standard library, or that of a package
    without files whose id is no module's. -/
theorem kind_of_get?_ofScan
    (h : (Universe.ofScan stdNames scan config.sourceVariant).get? id = some p) :
    scan.Included config id ∨ (id ∈ stdNames ∧ p = stdNode id) ∨
      (id ∉ stdNames ∧ id ∉ scan.modules.keys ∧ p = leafNode id) := by
  rcases get?_ofScan_eq_some_iff.1 h with ⟨hincludes, -⟩ | ⟨-, hstd, hnode⟩ |
    ⟨hincludes, hstd, hall, hnode⟩
  · exact .inl (includes_sourceVariant_iff.1 hincludes)
  · exact .inr (.inl ⟨hstd, hnode⟩)
  · refine .inr (.inr ⟨hstd, fun hmodule => ?_, hnode⟩)
    -- Something imports it, and so it would have to exist.
    rcases mem_allImportedIds_iff.1 hall with ⟨name, m, -, -, himported⟩
    rcases mem_importedIds_iff.1 himported with ⟨ref, -, -, hleads⟩
    rw [includes_sourceVariant_iff.2 (hleads.included hmodule)] at hincludes
    exact absurd hincludes.symm Bool.false_ne_true

/-- Without tests, a module that exists is not a test package. -/
theorem Included.isTestPackage_eq_false (h : scan.Included config name)
    (htests : config.tests = false) : isTestPackage name = false := by
  rcases h.2 with hwanted | hnotest
  · rw [htests] at hwanted
    exact absurd hwanted Bool.false_ne_true
  · exact hnotest

/-- The universe of a source tree under a configuration. A module that exists imports the nodes to
    which its imports lead, those for type checking only under their tag. Modules do not import
    themselves, and an import of a module that does not exist leads nowhere. The node of an id is
    that of a module that exists, that of the standard library, or that of a package without files
    whose id is no module's, and all imports refer to the universe's own nodes. Without tests,
    no test module of the tree is reached. -/
theorem ofScan_links_modules (stdNames : List String) (scan : SourceScan) (config : LoadConfig)
    (t : UniverseTable)
    (ht : t.get? config.sourceVariant =
      some (Universe.ofScan stdNames scan config.sourceVariant)) :
    let u := Universe.ofScan stdNames scan config.sourceVariant
    (∀ name m, scan.modules.get? name = some m → scan.Included config name →
      ∃ p, u.get? name = some p ∧ { p with imports := .empty } = scan.moduleNode name m ∧
        name ∉ p.importedIds t.catalog ∧
        (∀ q, q ∈ p.imported t.catalog ↔ u.get? q.id = some q ∧
          ∃ ref ∈ m.imports.imports, (ref.typeChecking = true → typingTag ∈ config.tagSet) ∧
            Links stdNames scan config name ref q) ∧
        ∀ ref target, scan.Resolves ref target → ¬ scan.Included config target →
          ∀ q, ¬ Links stdNames scan config name ref q) ∧
    (∀ id p, u.get? id = some p →
      p.id = id ∧
      (scan.Included config id ∨ (id ∈ stdNames ∧ p = stdNode id) ∨
        (id ∉ stdNames ∧ id ∉ scan.modules.keys ∧ p = leafNode id)) ∧
      ∀ e ∈ p.imports.entries,
        ∃ q, t.catalog.get? e.2 = some q ∧ u.get? e.1 = some q ∧ q.id = e.1) ∧
    (config.tests = false → ∀ p ∈ u.values, ∀ q,
      TransGen (fun a b => b ∈ a.imported t.catalog) p q →
        ¬ (q.id ∈ scan.modules.keys ∧ isTestPackage q.id = true)) := by
  intro u
  refine ⟨fun name m hm hincluded => ?_, fun id p hp => ?_, fun htests p hvalues q hpath => ?_⟩
  · refine ⟨scan.linkedNode config.sourceVariant name m, ?_, ?_, ?_, ?_, ?_⟩
    · exact get?_ofScan_eq_some_iff.2 (.inl ⟨includes_sourceVariant_iff.2 hincluded, m, hm, rfl⟩)
    · exact fields_linkedNode scan config.sourceVariant name m
    · exact not_mem_importedIds_self ht hm hincluded
    · exact fun q => mem_imported_module_iff ht hm hincluded
    · exact fun ref target hresolves hexcluded q => hresolves.not_links hexcluded
  · refine ⟨id_of_get?_ofScan hp, kind_of_get?_ofScan hp, fun e he => ?_⟩
    rcases own_of_get?_ofScan ht hp he with ⟨q, hcatalog, hown⟩
    exact ⟨q, hcatalog, hown, id_of_get?_ofScan hown⟩
  · rcases List.mem_map.1 hvalues with ⟨e, he, rfl⟩
    rintro ⟨hmodule, htest⟩
    have hincluded := (included_of_transGen ht (OrderedMap.get?_eq_some_iff.2 he) hpath).2 hmodule
    rw [hincluded.isTestPackage_eq_false htests] at htest
    exact Bool.false_ne_true htest

/-- A module of a file that imports the first names of lists of candidates. -/
def moduleImporting (path : String) (candidates : List (List String)) : SourceModule where
  file := ⟨path, path, .python, none, none, false, []⟩
  imports := ⟨candidates.map fun names => ⟨names, false⟩, false⟩

/-- A shop with a cart and a test package, which import themselves, each other, the standard
    library and what is outside. -/
def shopScan : SourceScan where
  modules := .ofList [
    ("shop", moduleImporting "shop.py" [["shop.cart.Item", "shop.cart"], ["shop"], ["os.path"],
      ["shop.tests.data"], ["requests.get", "requests"]]),
    ("shop.cart", moduleImporting "shop/cart.py" [["shop.Till", "shop"]]),
    ("shop.tests", moduleImporting "shop/tests.py" [["shop"]])]
  otherFiles := .empty

/-- Without tests the shop imports its cart, a package of the standard library and one without
    files. Its tests are not reached. -/
theorem ofScan_links_modules_shop :
    let u := Universe.ofScan ["os"] shopScan ({} : LoadConfig).sourceVariant
    let t : UniverseTable := .insert .empty ({} : LoadConfig).sourceVariant u
    ∃ p, u.get? "shop" = some p ∧ p.importedIds t.catalog = ["shop.cart", "os", "requests"] ∧
      ∀ q, TransGen (fun a b => b ∈ a.imported t.catalog) p q → q.id ≠ "shop.tests" := by
  intro u t
  have ht : t.get? ({} : LoadConfig).sourceVariant = some u := by
    rw [OrderedMap.get?_insert, if_pos rfl]
  rcases ofScan_links_modules ["os"] shopScan {} t ht with ⟨hmodules, -, htests⟩
  rcases hmodules "shop" _ rfl ⟨by decide +kernel, Or.inr (by decide +kernel)⟩ with ⟨p, hp, -⟩
  refine ⟨p, hp, ?_, fun q hpath hid => ?_⟩
  · have hids : (u.get? "shop").map (·.importedIds t.catalog) =
        some ["shop.cart", "os", "requests"] := by decide +kernel
    rw [hp] at hids
    exact Option.some.inj hids
  · refine htests rfl p (OrderedMap.mem_values_of_get? hp) q hpath ?_
    rw [hid]
    decide +kernel

end SourceScan

end PackageAlgebra
