import Mathlib.Data.List.Nodup
import PackageAlgebra.Proofs.Load.Records

/-!
# Universes of Records

How the universe of a configuration comes from a list of records, and what a wider
configuration adds to it.

Whether a record exists is a matter of the record and of the configuration: a test package
needs a configuration that wants tests, and each tag of a record has to be active. Edges come
afterwards, and an edge is dropped if it leads to a record that does not exist. So a universe is
cut out of the records as a set of packages is cut out of a graph, with all edges between them.

A configuration that asks for more has a universe with more packages. It cannot take an edge
away, because both ends of the edge are still there, and the only edges that it adds have an end
among the packages that were not there before.

## Main definitions

* `PackageRecord.Included`: A record exists under a configuration.
* `Universe.HoldsRecord`: A universe has a node of its own for a record.
* `LoadConfig.Within`: A configuration asks for no more than another one.
* `Universe.InducedIn`: A universe is the part of another one between its own packages.

## Theorems

* `mem_importsOf_iff`: The imports of an id are those of its records that exist.
* `get?_ofRecords_eq_some`: Each node of a universe is that of a record.
* `own_of_get?_ofRecords`: Imports refer to the universe's own nodes.
* `allNodes_recordLoader_induced`: Packages, edges, and what a wider configuration adds.
-/

namespace PackageAlgebra

variable {records existing : List PackageRecord} {config wider : LoadConfig} {v w : Variant}
  {r : PackageRecord} {p q : Node NodeRef} {id : String}

/-- A record exists under a configuration: tests are wanted, or it is not that of a test package
    by its flag nor by its id; and each of its tags is active. -/
def PackageRecord.Included (config : LoadConfig) (r : PackageRecord) : Prop :=
  (config.tests = true ∨ r.test = false ∧ isTestPackage r.id = false) ∧
    ∀ tag ∈ r.tags, Text.lower tag ∈ config.tagSet

theorem existsIn_variant_iff : r.existsIn config.variant = true ↔ r.Included config := by
  unfold PackageRecord.existsIn PackageRecord.Included PackageRecord.isTest LoadConfig.variant
  simp only [Bool.and_eq_true, Bool.or_eq_true, Bool.not_eq_true', Bool.or_eq_false_iff,
    List.all_eq_true, List.contains_iff_mem, mem_activeTags_iff]

instance (config : LoadConfig) (r : PackageRecord) : Decidable (r.Included config) :=
  decidable_of_iff _ existsIn_variant_iff

theorem filter_existsIn (records : List PackageRecord) (config : LoadConfig) :
    records.filter (PackageRecord.existsIn config.variant) =
      records.filter fun r => r.Included config := by
  refine List.filter_congr fun r _ => ?_
  rw [Bool.eq_iff_iff, existsIn_variant_iff, decide_eq_true_eq]

/-! ### Nodes -/

/-- A node without its imports. -/
def Node.bare {ρ : Type} (p : Node ρ) : Node ρ := { p with imports := .empty }

/-- The node of a record among the records that exist under a variant. -/
def PackageRecord.nodeAmong (v : Variant) (existing : List PackageRecord) (r : PackageRecord) :
    Node NodeRef :=
  { (r.bareNode : Node NodeRef) with imports := Universe.importsOf v existing r.id }

namespace Universe

/-- The imports of an id are those of its records that exist, each by a reference within the
    variant. -/
theorem mem_importsOf_iff {e : String × NodeRef} :
    e ∈ (importsOf v existing id).entries ↔
      (∃ r ∈ existing, r.id = id ∧ e.1 ∈ r.imports) ∧ e.1 ∈ existing.map PackageRecord.id ∧
        e.2 = ⟨v, e.1⟩ := by
  unfold importsOf
  rw [OrderedMap.mem_entries_ofList_map]
  simp only [List.mem_filter, List.mem_flatMap, decide_eq_true_eq, List.contains_iff_mem, and_assoc]

theorem mem_keys_importsOf_iff {target : String} :
    target ∈ (importsOf v existing id).keys ↔
      (∃ r ∈ existing, r.id = id ∧ target ∈ r.imports) ∧
        target ∈ existing.map PackageRecord.id := by
  unfold OrderedMap.keys
  rw [List.mem_map]
  constructor
  · rintro ⟨e, he, rfl⟩
    exact ⟨(mem_importsOf_iff.1 he).1, (mem_importsOf_iff.1 he).2.1⟩
  · rintro ⟨himported, hexists⟩
    exact ⟨(target, ⟨v, target⟩), mem_importsOf_iff.2 ⟨himported, hexists, rfl⟩, rfl⟩

/-- The ids of a universe are those of the records that exist. -/
theorem mem_keys_ofRecords_iff :
    id ∈ (ofRecords records v).keys ↔ ∃ r ∈ records, r.existsIn v = true ∧ r.id = id := by
  unfold ofRecords
  rw [OrderedMap.keys_mapValues, OrderedMap.mem_keys_ofList, List.map_map, List.mem_map]
  simp only [List.mem_filter, and_assoc, Function.comp_apply]

/-- Each node of a universe is that of a record that exists. -/
theorem get?_ofRecords_eq_some (h : (ofRecords records v).get? id = some p) :
    ∃ r ∈ records, r.existsIn v = true ∧ r.id = id ∧
      p = r.nodeAmong v (records.filter (·.existsIn v)) := by
  unfold ofRecords at h
  rw [OrderedMap.get?_mapValues, Option.map_eq_some_iff] at h
  rcases h with ⟨bare, hbare, rfl⟩
  have hwritten := OrderedMap.mem_of_mem_entries_ofList (OrderedMap.get?_eq_some_iff.1 hbare)
  rcases List.mem_map.1 hwritten with ⟨r, hr, hpair⟩
  rcases Prod.mk.inj hpair with ⟨rfl, rfl⟩
  rcases List.mem_filter.1 hr with ⟨hmem, hexists⟩
  exact ⟨r, hmem, hexists, rfl, rfl⟩

/-- Where ids are different, each record that exists has a node. -/
theorem get?_ofRecords (hids : (records.map PackageRecord.id).Nodup) (hr : r ∈ records)
    (hexists : r.existsIn v = true) :
    (ofRecords records v).get? r.id = some (r.nodeAmong v (records.filter (·.existsIn v))) := by
  have hnodup : ((records.filter (·.existsIn v)).map PackageRecord.id).Nodup :=
    hids.sublist (List.filter_sublist.map _)
  have hbare : (OrderedMap.ofList ((records.filter (·.existsIn v)).map fun r =>
      (r.id, (r.bareNode : Node NodeRef)))).get? r.id = some r.bareNode := by
    rw [OrderedMap.get?_eq_some_iff, OrderedMap.entries_ofList_map hnodup, List.mem_map]
    exact ⟨r, List.mem_filter.2 ⟨hr, hexists⟩, rfl⟩
  unfold ofRecords
  rw [OrderedMap.get?_mapValues, hbare]
  rfl

/-- Where ids are different, they are those of the records that exist, in the same order. -/
theorem keys_ofRecords (hids : (records.map PackageRecord.id).Nodup) :
    (ofRecords records v).keys = (records.filter (·.existsIn v)).map PackageRecord.id := by
  have hnodup : ((records.filter (·.existsIn v)).map PackageRecord.id).Nodup :=
    hids.sublist (List.filter_sublist.map _)
  unfold ofRecords
  rw [OrderedMap.keys_mapValues, OrderedMap.keys, OrderedMap.entries_ofList_map hnodup,
    List.map_map]
  rfl

/-- A universe has a node of its own for a record, with the fields of the record. It imports those
    ids of the record that are in the universe, and each import leads to the universe's own node
    of that id. -/
structure HoldsRecord (catalog : Catalog NodeRef) (u : Universe) (r : PackageRecord)
    (p : Node NodeRef) : Prop where
  -- The node is filed under the id of the record.
  filed : u.get? r.id = some p
  -- But for the imports, it is what the record says.
  fields : p.bare = r.bareNode
  -- Imports of ids that are not there are dropped, and no others.
  imports : ∀ target, target ∈ p.imports.keys ↔ target ∈ r.imports ∧ target ∈ u.keys
  -- Imports stay within the universe.
  own : ∀ e ∈ p.imports.entries, ∃ q, catalog.get? e.2 = some q ∧ u.get? e.1 = some q ∧ q.id = e.1

theorem id_of_get?_ofRecords (h : (ofRecords records v).get? id = some p) : p.id = id := by
  rcases get?_ofRecords_eq_some h with ⟨r, -, -, rfl, rfl⟩
  rfl

/-- Imports refer to the universe's own nodes, by their ids. -/
theorem own_of_get?_ofRecords {t : UniverseTable} (ht : t.get? v = some (ofRecords records v))
    (h : (ofRecords records v).get? id = some p) {e : String × NodeRef}
    (he : e ∈ p.imports.entries) :
    ∃ q, t.catalog.get? e.2 = some q ∧ (ofRecords records v).get? e.1 = some q := by
  rcases get?_ofRecords_eq_some h with ⟨r, -, -, -, rfl⟩
  rcases mem_importsOf_iff.1 he with ⟨-, htarget, href⟩
  rcases List.mem_map.1 htarget with ⟨target, hexists, hid⟩
  rw [List.mem_filter] at hexists
  have hkey := mem_keys_ofRecords_iff.2 ⟨target, hexists.1, hexists.2, hid⟩
  rcases OrderedMap.mem_keys_iff.1 hkey with ⟨q, hq⟩
  refine ⟨q, ?_, hq⟩
  rwa [href, UniverseTable.get?_catalog ht]

/-- Where ids are different, a universe has a node of its own for each record that exists. -/
theorem exists_holdsRecord {t : UniverseTable} (hids : (records.map PackageRecord.id).Nodup)
    (ht : t.get? v = some (ofRecords records v)) (hr : r ∈ records)
    (hexists : r.existsIn v = true) : ∃ p, HoldsRecord t.catalog (ofRecords records v) r p := by
  have hmem : r ∈ records.filter (·.existsIn v) := List.mem_filter.2 ⟨hr, hexists⟩
  have hnode := get?_ofRecords hids hr hexists
  refine ⟨_, hnode, rfl, fun target => ?_, fun e he => ?_⟩
  · change target ∈ (importsOf v (records.filter (·.existsIn v)) r.id).keys ↔ _
    rw [mem_keys_importsOf_iff, ← keys_ofRecords hids]
    refine and_congr_left fun _ => ?_
    constructor
    · rintro ⟨s, hs, hid, himported⟩
      have hsame : s = r := List.inj_on_of_nodup_map hids (List.mem_filter.1 hs).1 hr hid
      rwa [hsame] at himported
    · intro himported
      exact ⟨r, hmem, rfl, himported⟩
  · rcases own_of_get?_ofRecords ht hnode he with ⟨q, hcatalog, hq⟩
    exact ⟨q, hcatalog, hq, id_of_get?_ofRecords hq⟩

/-- A universe is the part of another one that lies between its own packages: the same packages in
    the same order, and of their imports those that lead to one of them. -/
structure InducedIn (u w : Universe) : Prop where
  -- Packages of the other one are left out, and nothing is moved.
  keys : u.keys = w.keys.filter fun id => id ∈ u.keys
  -- A package has the same fields and the same imports among the packages that are left.
  nodes : ∀ id p, u.get? id = some p → ∃ q, w.get? id = some q ∧ p.bare = q.bare ∧
    ∀ target, target ∈ p.imports.keys ↔ target ∈ q.imports.keys ∧ target ∈ u.keys

end Universe

/-! ### Wider configurations -/

/-- A configuration asks for no more than another one: for tests only if that one does, and for
    tags that are active there. -/
structure LoadConfig.Within (config wider : LoadConfig) : Prop where
  -- Tests are wanted there if they are wanted here.
  tests : config.tests = true → wider.tests = true
  -- Tags are active there if they are active here.
  tags : config.tagSet ⊆ wider.tagSet

/-- A record that exists still exists where more is asked for. -/
theorem PackageRecord.Included.mono (hwithin : config.Within wider) (h : r.Included config) :
    r.Included wider :=
  ⟨h.1.imp_left hwithin.tests, fun tag htag => hwithin.tags (h.2 tag htag)⟩

/-- The universe of a configuration is induced in that of a wider one. -/
theorem inducedIn_ofRecords (hids : (records.map PackageRecord.id).Nodup)
    (hwithin : config.Within wider) :
    Universe.InducedIn (Universe.ofRecords records config.variant)
      (Universe.ofRecords records wider.variant) := by
  have hwider : ∀ {r : PackageRecord}, r.existsIn config.variant = true →
      r.existsIn wider.variant = true := by
    intro r hr
    exact existsIn_variant_iff.2 ((existsIn_variant_iff.1 hr).mono hwithin)
  -- Each of the universes holds a record by the same fields and the same listed imports.
  have hholds : ∀ {v r}, r ∈ records → r.existsIn v = true → ∃ p,
      Universe.HoldsRecord (UniverseTable.catalog (.insert .empty v (Universe.ofRecords records v)))
        (Universe.ofRecords records v) r p := by
    intro v r hr hexists
    exact Universe.exists_holdsRecord hids (by rw [OrderedMap.get?_insert, if_pos rfl]) hr hexists
  constructor
  · rw [Universe.keys_ofRecords hids, Universe.keys_ofRecords hids, List.filter_map,
      List.filter_filter]
    congr 1
    refine List.filter_congr fun r hr => ?_
    rw [Bool.eq_iff_iff, Bool.and_eq_true, Function.comp_apply, decide_eq_true_eq, List.mem_map]
    constructor
    · intro hexists
      exact ⟨⟨r, List.mem_filter.2 ⟨hr, hexists⟩, rfl⟩, hwider hexists⟩
    · rintro ⟨⟨s, hs, hid⟩, -⟩
      rw [List.mem_filter] at hs
      rw [← List.inj_on_of_nodup_map hids hs.1 hr hid]
      exact hs.2
  · intro id p hp
    rcases Universe.get?_ofRecords_eq_some hp with ⟨r, hr, hexists, rfl, -⟩
    rcases hholds hr hexists with ⟨p', hthis⟩
    rcases hholds hr (hwider hexists) with ⟨q, hother⟩
    have hsame : p' = p := Option.some.inj (hthis.filed.symm.trans hp)
    subst hsame
    refine ⟨q, hother.filed, hthis.fields.trans hother.fields.symm, fun target => ?_⟩
    rw [hthis.imports, hother.imports]
    constructor
    · rintro ⟨himported, htarget⟩
      rcases Universe.mem_keys_ofRecords_iff.1 htarget with ⟨s, hs, hsexists, hsid⟩
      exact ⟨⟨himported, Universe.mem_keys_ofRecords_iff.2 ⟨s, hs, hwider hsexists, hsid⟩⟩, htarget⟩
    · rintro ⟨⟨himported, -⟩, htarget⟩
      exact ⟨himported, htarget⟩

/-- A list of records with different ids has, for each configuration and whatever was asked before,
    a universe of one package for each record that exists. Each package imports those ids of its
    record that are in the universe, and by each import it refers to the universe's own node. A
    configuration that asks for more has a universe in which this one is induced. -/
theorem allNodes_recordLoader_induced (hids : (records.map PackageRecord.id).Nodup)
    (history : List Question) (config : LoadConfig) :
    let l := recordLoader records
    let answer := l.allNodes config (l.after history .empty)
    ∃ u, answer.1 = .ok u ∧
      u.keys = (records.filter fun r => r.Included config).map PackageRecord.id ∧
      (∀ r ∈ records, r.Included config →
        ∃ p, Universe.HoldsRecord (l.catalog answer.2) u r p) ∧
      ∀ wider, config.Within wider →
        ∃ w, (l.allNodes wider answer.2).1 = .ok w ∧ Universe.InducedIn u w := by
  intro l answer
  have hbuilt : (l.after history .empty).BuiltFrom records :=
    UniverseTable.builtFrom_empty.after history
  have hkept := hbuilt.require config.variant
  have hanswer : answer = _ := allNodes_recordLoader hbuilt
  rw [hanswer]
  refine ⟨_, rfl, ?_, fun r hr hincluded => ?_, fun wider hwithin => ?_⟩
  · rw [Universe.keys_ofRecords hids, filter_existsIn]
  · refine Universe.exists_holdsRecord hids ?_ hr (existsIn_variant_iff.2 hincluded)
    rw [UniverseTable.get?_require, hkept.1]
  · exact ⟨_, congrArg Prod.fst (allNodes_recordLoader hkept.2), inducedIn_ofRecords hids hwithin⟩

/-- A package, one under a tag and a test package, which import each other and what is nowhere. -/
def taggedRecords : List PackageRecord :=
  [{ id := "a", imports := ["b", "a_test", "a"] }, { id := "b", tags := ["Fast"] },
    { id := "a_test", imports := ["a", "b", "lost"] }]

/-- With tests and the tag the packages come back, and nothing changes between those that were
    there. -/
theorem allNodes_recordLoader_induced_tagged :
    let l := recordLoader taggedRecords
    let wider : LoadConfig := { tests := true, tags := ["FAST"] }
    ∃ u w, (l.allNodes {} .empty).1 = .ok u ∧
      (l.allNodes wider (l.allNodes {} .empty).2).1 = .ok w ∧ Universe.InducedIn u w ∧
      u.keys = ["a"] ∧ w.keys = ["a", "b", "a_test"] := by
  intro l wider
  have hids : (taggedRecords.map PackageRecord.id).Nodup := by decide
  have hwithin : LoadConfig.Within {} wider :=
    ⟨fun h => absurd h Bool.false_ne_true, fun _ ⟨_, hwritten, _⟩ => absurd hwritten
      List.not_mem_nil⟩
  rcases allNodes_recordLoader_induced hids [] {} with ⟨u, hu, hkeys, -, hinduced⟩
  rcases hinduced wider hwithin with ⟨w, hw, hinduced⟩
  rcases allNodes_recordLoader_induced hids [.allNodes {}] wider with ⟨w', hw', hkeys', -, -⟩
  have hsame : w' = w := Except.ok.inj (hw'.symm.trans hw)
  refine ⟨u, w, hu, hw, hinduced, ?_, ?_⟩
  · rw [hkeys]
    decide +kernel
  · rw [← hsame, hkeys']
    decide +kernel

end PackageAlgebra
