import PackageAlgebra.Proofs.Calculator.Origins
import PackageAlgebra.Proofs.Calculator.Runs
import PackageAlgebra.Proofs.Graph.Members
import PackageAlgebra.Proofs.Package.Answers

/-!
# Sets without the Standard Library

Which packages are taken out of a set as those of the standard library.

A package says of itself whether it belongs to the standard library, but nobody looks at that
when the standard library is taken out of a set. What is taken out are the ids of another set: the
packages of the standard library with everything that they import, loaded once, with tests and
without tags. The two are not the same. A package of the standard library that needs a tag is not
there when the standard library is loaded, and stays in every set that it is a member of; and a
package that is not of the standard library goes if one imports it that is.

The standard library is loaded when it is first asked for, and a calculation may have been
through anything before that and after it. Neither matters: no evaluation touches what has been
loaded, and what would be loaded now is what has been loaded then.

## Main definitions

* `Universe.Imports`: One id of a universe imports another.
* `Universe.StdLeadsTo`: Imports lead to an id from the standard library.
* `stdUniverse`: The universe in which the standard library is looked for.
* `NodeUniverse.ofKept`: A universe of records that a table keeps.
* `CalcState.KeepsStd`: What has been loaded as the standard library is right.
* `Calculator.Serves`: The states of a calculator that serves queries.

## Theorems

* `exists_resolveIn_std`: What the name of the standard library stands for.
* `imports_ofKept_iff`: The import relation of a universe that a table keeps.
* `mem_keys_ofClosure_std_iff`: What the standard library imports, directly or not.
* `Calc.loadStd_of_sound`: Loading the standard library.
* `Calculator.Serves.sound`: What holds of every state of a calculator.
* `mem_withoutStd_evaluate_iff`: What is left of an evaluated set.
* `withoutStd_misses_flags`: What is left is not just what does not belong to the standard library.
-/

namespace PackageAlgebra

open Relation

variable {records : List PackageRecord} {v : Variant} {t : UniverseTable}
  {x y id : String} {r : PackageRecord}

/-! ### The standard library of a universe -/

namespace Universe

/-- One id of a universe imports another. -/
def Imports (u : Universe) (x y : String) : Prop := ∃ p, u.get? x = some p ∧ y ∈ p.imports.keys

/-- Imports lead to an id from the standard library. -/
def StdLeadsTo (u : Universe) (id : String) : Prop :=
  ∃ x p, u.get? x = some p ∧ p.std = true ∧ ReflTransGen u.Imports x id

/-- What is imported in a universe of records is in the universe. -/
theorem mem_keys_of_imports (h : (ofRecords records v).Imports x y) :
    y ∈ (ofRecords records v).keys := by
  rcases h with ⟨p, hp, hy⟩
  rcases get?_ofRecords_eq_some hp with ⟨r, -, -, -, rfl⟩
  rcases List.mem_map.1 (mem_keys_importsOf_iff.1 hy).2 with ⟨target, hexists, hid⟩
  rw [List.mem_filter] at hexists
  exact mem_keys_ofRecords_iff.2 ⟨target, hexists.1, hexists.2, hid⟩

/-- What the standard library leads to is in the universe. -/
theorem StdLeadsTo.mem_keys (h : (ofRecords records v).StdLeadsTo id) :
    id ∈ (ofRecords records v).keys := by
  rcases h with ⟨x, p, hp, -, hpath⟩
  rcases hpath.cases_tail with rfl | ⟨_, _, himports⟩
  · exact OrderedMap.mem_keys_iff.2 ⟨p, hp⟩
  · exact mem_keys_of_imports himports

end Universe

/-- The universe in which the standard library is looked for: with tests, and without tags. -/
def stdUniverse (records : List PackageRecord) : Universe :=
  .ofRecords records ({ tests := true } : LoadConfig).variant

/-- A record exists where the standard library is looked for if it has no tags. -/
theorem existsIn_stdVariant_iff :
    r.existsIn ({ tests := true } : LoadConfig).variant = true ↔ r.tags = [] := by
  rw [existsIn_variant_iff]
  constructor
  · rintro ⟨-, htags⟩
    refine List.eq_nil_iff_forall_not_mem.2 fun tag htag => ?_
    rcases htags tag htag with ⟨_, hwritten, -⟩
    exact List.not_mem_nil hwritten
  · intro htags
    refine ⟨Or.inl rfl, fun tag htag => ?_⟩
    rw [htags] at htag
    exact absurd htag List.not_mem_nil

/-- Where ids are different, a package of the standard library is found there if it has no
    tags. -/
theorem stdLeadsTo_iff_of_std (hids : (records.map PackageRecord.id).Nodup) (hr : r ∈ records)
    (hstd : r.std = true) : (stdUniverse records).StdLeadsTo r.id ↔ r.tags = [] := by
  constructor
  · intro hled
    rcases Universe.mem_keys_ofRecords_iff.1 hled.mem_keys with ⟨s, hs, hexists, hid⟩
    rw [← List.inj_on_of_nodup_map hids hs hr hid]
    exact existsIn_stdVariant_iff.1 hexists
  · intro htags
    exact ⟨r.id, _, Universe.get?_ofRecords hids hr (existsIn_stdVariant_iff.2 htags), hstd, .refl⟩

/-- The name of the standard library stands for its packages, and is never unknown. -/
theorem exists_resolveIn_std (config : LoadConfig) (nodes : Universe)
    (inWildcards : Node NodeRef → Bool) :
    ∃ roots, resolveIn nodes inWildcards config [stdPattern] = .ok roots ∧
      ∀ p, p ∈ roots ↔ ∃ id, nodes.get? id = some p ∧ p.std = true := by
  have hmatches : (Resolution.mk nodes inWildcards config.tests).matchesOf stdPattern =
      some ((nodes.entries.filter fun e => e.2.std).map Prod.fst) := by
    unfold Resolution.matchesOf
    rw [if_pos rfl]
  have hfailures : (Resolution.mk nodes inWildcards config.tests).failures [stdPattern] = [] := by
    unfold Resolution.failures
    rw [List.filter_singleton, hmatches]
    rfl
  unfold resolveIn Resolution.resolve
  rw [hfailures, if_pos List.isEmpty_nil]
  refine ⟨_, rfl, fun p => ?_⟩
  rw [List.mem_filterMap]
  simp only [mem_foldl_distinct, List.flatMap_cons, List.flatMap_nil, List.append_nil, hmatches,
    Option.getD_some, List.not_mem_nil, false_or, List.mem_map, List.mem_filter]
  constructor
  · rintro ⟨id, ⟨e, ⟨he, hstd⟩, rfl⟩, hp⟩
    have hsame := OrderedMap.get?_eq_some_iff.2 he
    rw [hp, Option.some.injEq] at hsame
    exact ⟨e.1, hp, hsame ▸ hstd⟩
  · rintro ⟨id, hp, hstd⟩
    exact ⟨id, ⟨(id, p), ⟨OrderedMap.get?_eq_some_iff.1 hp, hstd⟩, rfl⟩, hp⟩

/-! ### Universes that are kept -/

/-- The nodes of a universe of records that a table keeps. -/
def NodeUniverse.ofKept (ht : t.get? v = some (Universe.ofRecords records v)) :
    NodeUniverse t.catalog where
  nodes := {p | ∃ id, (Universe.ofRecords records v).get? id = some p}
  imported_mem := by
    rintro p q ⟨id, hp⟩ hq
    rcases Node.mem_imported_iff.1 hq with ⟨e, he, hfind⟩
    rcases Universe.own_of_get?_ofRecords ht hp he with ⟨q', hown, hq'⟩
    rw [hown, Option.some.injEq] at hfind
    exact ⟨e.1, hfind ▸ hq'⟩
  eq_of_id_eq := by
    rintro p q ⟨i, hp⟩ ⟨j, hq⟩ hid
    rw [Universe.id_of_get?_ofRecords hp, Universe.id_of_get?_ofRecords hq] at hid
    rw [hid, hq, Option.some.injEq] at hp
    exact hp.symm

/-- The import relation of a universe that a table keeps is read off its nodes. -/
theorem imports_ofKept_iff (ht : t.get? v = some (Universe.ofRecords records v)) :
    (NodeUniverse.ofKept ht).Imports x y ↔ (Universe.ofRecords records v).Imports x y := by
  constructor
  · rintro ⟨p, ⟨id, hp⟩, rfl, hy⟩
    rcases Node.mem_importedIds_iff.1 hy with ⟨q, hq, rfl⟩
    rcases Node.mem_imported_iff.1 hq with ⟨e, he, hfind⟩
    rcases Universe.own_of_get?_ofRecords ht hp he with ⟨q', hown, hq'⟩
    rw [hown, Option.some.injEq] at hfind
    subst hfind
    rw [Universe.id_of_get?_ofRecords hp, Universe.id_of_get?_ofRecords hq']
    exact ⟨p, hp, List.mem_map_of_mem he⟩
  · rintro ⟨p, hp, hy⟩
    rcases List.mem_map.1 hy with ⟨e, he, rfl⟩
    rcases Universe.own_of_get?_ofRecords ht hp he with ⟨q, hown, hq⟩
    refine ⟨p, ⟨x, hp⟩, Universe.id_of_get?_ofRecords hp, Node.mem_importedIds_iff.2 ⟨q, ?_, ?_⟩⟩
    · exact Node.mem_imported_iff.2 ⟨e, he, hown⟩
    · exact Universe.id_of_get?_ofRecords hq

/-- The packages of the standard library together with everything they import are what it leads
    to. -/
theorem mem_keys_ofClosure_std_iff (ht : t.get? v = some (Universe.ofRecords records v))
    {roots : List (Node NodeRef)}
    (hroots : ∀ p, p ∈ roots ↔ ∃ id, (Universe.ofRecords records v).get? id = some p ∧ p.std = true)
    (id : String) : id ∈ (PackageSet.ofClosure t.catalog roots).keys ↔
      (Universe.ofRecords records v).StdLeadsTo id := by
  have hedition : ∀ p ∈ roots, (NodeUniverse.ofKept ht).IsEdition p := by
    intro p hp
    rcases (hroots p).1 hp with ⟨id, hid, -⟩
    exact Or.inl ⟨id, hid⟩
  have hpaths : (NodeUniverse.ofKept ht).Imports = (Universe.ofRecords records v).Imports := by
    ext x y
    exact imports_ofKept_iff ht
  rw [PackageSet.mem_keys_ofClosure_iff hedition, hpaths]
  constructor
  · rintro ⟨x, hx, hpath⟩
    rcases List.mem_map.1 hx with ⟨p, hp, rfl⟩
    rcases (hroots p).1 hp with ⟨i, hi, hstd⟩
    exact ⟨i, p, hi, hstd, Universe.id_of_get?_ofRecords hi ▸ hpath⟩
  · rintro ⟨x, p, hp, hstd, hpath⟩
    refine ⟨x, List.mem_map.2 ⟨p, (hroots p).2 ⟨x, hp, hstd⟩, ?_⟩, hpath⟩
    exact Universe.id_of_get?_ofRecords hp

/-! ### The standard library of a calculation -/

variable {parties : Calculator UniverseTable NodeRef} {s : CalcState UniverseTable NodeRef}
  {a : PackageSet NodeRef}

/-- What has been loaded as the standard library, if it has been loaded, is what the standard
    library leads to. -/
def CalcState.KeepsStd (records : List PackageRecord) (s : CalcState UniverseTable NodeRef) :
    Prop :=
  ∀ outcome, s.std = some outcome →
    ∃ library, outcome = .ok library ∧
      ∀ id, id ∈ library.keys ↔ (stdUniverse records).StdLeadsTo id

namespace Calc

/-- Loading the standard library gives what the standard library leads to. -/
theorem loadStd_of_sound (h : parties.Over records) (hs : s.Sound records) :
    ∃ library after, loadStd parties s = (.ok library, after) ∧ after.Sound records ∧
      ∀ id, id ∈ library.keys ↔ (stdUniverse records).StdLeadsTo id := by
  let config : LoadConfig := { tests := true }
  let table := (s.loader.require config.variant (Universe.ofRecords records)).2
  let asked : CalcState UniverseTable NodeRef :=
    { s.record (callOf config [stdPattern]) with loader := table }
  rcases exists_resolveIn_std config (stdUniverse records) (fun p => !p.std) with
    ⟨roots, hroots, hmem⟩
  have hbuilt := hs.loader.require config.variant
  have hkept : table.get? config.variant = some (stdUniverse records) :=
    (UniverseTable.get?_require s.loader config.variant _).trans (congrArg some hbuilt.1)
  have hload : parties.loader.load config [stdPattern] s.loader = (.ok roots, table) := by
    rw [h.loader, load_recordLoader rfl hs.loader]
    exact Prod.ext hroots rfl
  have hasked : asked.Sound records :=
    (hs.grows_asked [callOf config [stdPattern]] s.asked hbuilt.2
      (UniverseTable.keptIn_require s.loader config.variant _)).2
  refine ⟨.ofClosure (parties.loader.catalog table) roots, asked, ?_, hasked, ?_⟩
  · unfold loadStd
    rw [bind_ok (loadNodes_of_ok hload), bind_ok catalog_apply]
    exact pure_apply _
  · rw [h.loader]
    exact mem_keys_ofClosure_std_iff hkept hmem

/-- The standard library is there, whether it has been loaded or is loaded now, and stays. -/
theorem stdPackages_of_sound (h : parties.Over records) (hs : s.Sound records)
    (hstd : s.KeepsStd records) :
    ∃ library after, stdPackages parties s = (.ok library, after) ∧ after.Sound records ∧
      after.KeepsStd records ∧ ∀ id, id ∈ library.keys ↔ (stdUniverse records).StdLeadsTo id := by
  have hget : (get : Calc UniverseTable NodeRef _) s = (.ok s, s) := rfl
  rcases hkept : s.std with _ | outcome
  · rcases loadStd_of_sound h hs with ⟨library, after, hload, hafter, hlibrary⟩
    refine ⟨library, { after with std := some (.ok library) }, ?_, ⟨hafter.loader, hafter.bindings⟩,
      fun outcome houtcome => ⟨library, (Option.some.inj houtcome).symm, hlibrary⟩, hlibrary⟩
    unfold stdPackages stdOutcome
    simp only [bind_assoc]
    rw [bind_ok hget, hkept]
    simp only [bind_assoc]
    rw [bind_ok (attempt_ok hload)]
    rfl
  · rcases hstd outcome hkept with ⟨library, rfl, hlibrary⟩
    refine ⟨library, s, ?_, hs, hstd, hlibrary⟩
    unfold stdPackages stdOutcome
    rw [bind_assoc, bind_ok hget, hkept]
    rfl

/-- A set without the standard library has lost the members to which the standard library
    leads. -/
theorem withoutStd_of_sound (h : parties.Over records) (hs : s.Sound records)
    (hstd : s.KeepsStd records) (a : PackageSet NodeRef) :
    ∃ b after, withoutStd parties a s = (.ok b, after) ∧ after.Sound records ∧
      after.KeepsStd records ∧ b.entries.Sublist a.entries ∧
      ∀ m ∈ a.entries, m ∈ b.entries ↔ ¬ (stdUniverse records).StdLeadsTo m.1 := by
  rcases stdPackages_of_sound h hs hstd with ⟨library, after, hload, hafter, hkeeps, hlibrary⟩
  refine ⟨a.subtract library, after, ?_, hafter, hkeeps, List.filter_sublist, fun m hm => ?_⟩
  · unfold withoutStd
    rw [bind_ok hload]
    exact pure_apply _
  · change m ∈ a.entries.filter _ ↔ _
    rw [List.mem_filter, ← hlibrary, ← OrderedMap.contains_iff_mem_keys, Bool.not_eq_true',
      Bool.not_eq_true]
    exact and_iff_right hm

end Calc

/-- No step of an evaluation touches what has been loaded as the standard library. -/
theorem carries_std {σ ρ : Type} (parties : Calculator σ ρ) (names : List String) :
    parties.Carries names fun s t => t.std = s.std where
  refl _ := rfl
  trans hst htu := htu.trans hst
  load config patterns s := by
    unfold Calc.loadNodes
    dsimp only
    split <;> rfl
  oracle oracle _ config ids s := by
    unfold Calc.askOracle
    dsimp only
    split <;> rfl
  bind _ _ _ _ _ := rfl

theorem CalcState.KeepsStd.evaluate (hstd : s.KeepsStd records) (ctx : Context) (e : Expr) :
    (evaluate parties ctx e s).2.KeepsStd records := by
  intro outcome houtcome
  rw [evaluate_follows (carries_std parties e.assignedNames) e (fun _ hname => hname) ctx s]
    at houtcome
  exact hstd outcome houtcome

/-- The states of a calculator that serves queries. It starts with a new loader. Each query has
    variables of its own, its expressions are evaluated one after the other, and the standard
    library is taken out of sets in between. -/
inductive Calculator.Serves {σ ρ : Type} (parties : Calculator σ ρ) (start : σ) :
    CalcState σ ρ → Prop
  | start : Serves parties start { loader := start }
  | query {s : CalcState σ ρ} (hs : Serves parties start s) :
      Serves parties start { s with bindings := .empty }
  | evaluate {s : CalcState σ ρ} (hs : Serves parties start s) (ctx : Context) (e : Expr) :
      Serves parties start (evaluate parties ctx e s).2
  | withoutStd {s : CalcState σ ρ} (hs : Serves parties start s) (a : PackageSet ρ) :
      Serves parties start (Calc.withoutStd parties a s).2

/-- In every state of a calculator, evaluations may go on and the standard library is right. -/
theorem Calculator.Serves.sound (h : parties.Over records) (hs : parties.Serves .empty s) :
    s.Sound records ∧ s.KeepsStd records := by
  induction hs with
  | start =>
      refine ⟨⟨UniverseTable.builtFrom_empty, fun _ _ hbound => ?_⟩, fun _ hstd => ?_⟩
      · cases hbound
      · cases hstd
  | query _ ih =>
      refine ⟨⟨ih.1.loader, fun _ _ hbound => ?_⟩, ih.2⟩
      cases hbound
  | evaluate _ ctx e ih => exact ⟨(evaluate_yields h e ctx _ ih.1).sound, ih.2.evaluate ctx e⟩
  | withoutStd _ a ih =>
      rcases Calc.withoutStd_of_sound h ih.1 ih.2 a with ⟨b, after, hrun, hafter, hkeeps, -⟩
      rw [hrun]
      exact ⟨hafter, hkeeps⟩

/-- A member of an evaluated set belongs to the standard library if a record of its id does. -/
theorem exists_record_of_evaluate (h : parties.Over records) (hs : s.Sound records)
    {ctx : Context} {e : Expr} (ha : (evaluate parties ctx e s).1 = .ok a)
    {m : String × Node NodeRef} (hm : m ∈ a.entries) :
    ∃ r ∈ records, r.id = m.1 ∧ m.2.std = r.std := by
  have hrun := evaluate_yields h e ctx s hs
  rcases hrun.value a ha m hm with ⟨hfiled, call, -, u, p, hu, hp, hcopy⟩
  rw [hrun.sound.loader _ u hu] at hp
  rcases Universe.get?_ofRecords_eq_some hp with ⟨r, hr, -, hid, rfl⟩
  exact ⟨r, hr, hid.trans hfiled, congrArg Node.std hcopy.fields⟩

/-- Taking the standard library out of an evaluated set succeeds, and leaves the members to which
    the standard library does not lead, in their order: no imports lead to them from a package of
    the standard library, where all packages without tags exist and no others. These are just the
    members that do not belong to the standard library if, of the packages in the set, those of the
    standard library have no tags and it leads to none of the others, and only then. -/
theorem mem_withoutStd_evaluate_iff (h : parties.Over records) (hs : parties.Serves .empty s)
    (ctx : Context) (e : Expr) :
    let run := evaluate parties ctx e s
    ∀ a, run.1 = .ok a → ∃ b, (Calc.withoutStd parties a run.2).1 = .ok b ∧
      b.entries.Sublist a.entries ∧
      (∀ m ∈ a.entries, m ∈ b.entries ↔ ¬ (stdUniverse records).StdLeadsTo m.1) ∧
      ((records.map PackageRecord.id).Nodup →
        ((∀ m ∈ a.entries, m ∈ b.entries ↔ m.2.std = false) ↔
          ∀ r ∈ records, r.id ∈ a.keys → (r.std = true → r.tags = []) ∧
            (r.std = false → ¬ (stdUniverse records).StdLeadsTo r.id))) := by
  intro run a ha
  have hstart := hs.sound h
  have hafter := (hs.evaluate ctx e).sound h
  rcases Calc.withoutStd_of_sound h hafter.1 hafter.2 a with ⟨b, _, hrun, -, -, hsub, hmem⟩
  refine ⟨b, congrArg Prod.fst hrun, hsub, hmem, fun hids => ?_⟩
  constructor
  · intro hflags r hr hkey
    rcases List.mem_map.1 hkey with ⟨m, hm, hid⟩
    rcases exists_record_of_evaluate h hstart.1 ha hm with ⟨r', hr', hid', hstd⟩
    have hsame : r' = r := List.inj_on_of_nodup_map hids hr' hr (hid'.trans hid)
    subst hsame
    have hled := (hmem m hm).symm.trans (hflags m hm)
    rw [← hid', hstd] at hled
    refine ⟨fun hr => ?_, hled.2⟩
    -- A package of the standard library that has no tags would have been found there.
    rw [← stdLeadsTo_iff_of_std hids hr' hr, ← not_not (a := Universe.StdLeadsTo _ _), hled, hr]
    exact Bool.noConfusion
  · intro hrecords m hm
    rcases exists_record_of_evaluate h hstart.1 ha hm with ⟨r, hr, hid, hstd⟩
    have hrecord := hrecords r hr (hid ▸ List.mem_map_of_mem hm)
    rw [hmem m hm, hstd, ← hid]
    cases hflag : r.std with
    | false => exact iff_of_true (hrecord.2 hflag) rfl
    | true =>
        have hled := (stdLeadsTo_iff_of_std hids hr hflag).2 (hrecord.1 hflag)
        exact iff_of_false (not_not_intro hled) (by decide)

/-- A package that needs another one of the standard library under a tag, and one of the standard
    library that needs a package which is not of it. -/
def vendoringRecords : List PackageRecord :=
  [{ id := "app", imports := ["ssl", "os"] }, { id := "ssl", std := true, tags := ["tls"] },
    { id := "os", imports := ["vendored"], std := true }, { id := "vendored" }]

/-- The records, and nobody who knows their symbols. -/
def vendoringParties : Calculator UniverseTable NodeRef where
  loader := recordLoader vendoringRecords

/-- A query for all of the packages, with the tag. -/
def vendoringQuery : Expr :=
  .call "tls=1" [.call "" [.package "app", .package "ssl", .package "os", .package "vendored"]]

theorem over_vendoringParties : vendoringParties.Over vendoringRecords :=
  ⟨rfl, fun _ horacle => by cases horacle⟩

/-- The one package of the standard library that has no tag leads to itself and to its import. -/
theorem stdLeadsTo_vendoring_iff :
    (stdUniverse vendoringRecords).StdLeadsTo id ↔ id = "os" ∨ id = "vendored" := by
  have hroots : ∀ e ∈ (stdUniverse vendoringRecords).entries, e.2.std = true → e.1 = "os" := by
    decide +kernel
  have hsteps : ∀ e ∈ (stdUniverse vendoringRecords).entries, e.1 = "os" ∨ e.1 = "vendored" →
      ∀ y ∈ e.2.imports.keys, y = "vendored" := by
    decide +kernel
  constructor
  · rintro ⟨x, p, hp, hstd, hpath⟩
    induction hpath with
    | refl => exact .inl (hroots _ (OrderedMap.get?_eq_some_iff.1 hp) hstd)
    | tail _ hstep ih =>
        rcases hstep with ⟨q, hq, hy⟩
        exact .inr (hsteps _ (OrderedMap.get?_eq_some_iff.1 hq) ih _ hy)
  · have hos : ∃ e ∈ (stdUniverse vendoringRecords).entries, e.1 = "os" ∧ e.2.std = true ∧
        "vendored" ∈ e.2.imports.keys := by
      decide +kernel
    rcases hos with ⟨⟨_, p⟩, he, rfl, hstd, himports⟩
    have hp := OrderedMap.get?_eq_some_iff.2 he
    rintro (rfl | rfl)
    · exact ⟨"os", p, hp, hstd, .refl⟩
    · exact ⟨"os", p, hp, hstd, .single ⟨p, hp, himports⟩⟩

/-- What is left of an evaluated set are not just the members that do not belong to the standard
    library: one that does stays, and one that does not goes. -/
theorem withoutStd_misses_flags :
    let run := evaluate vendoringParties {} vendoringQuery { loader := .empty }
    ∃ a b, run.1 = .ok a ∧ (Calc.withoutStd vendoringParties a run.2).1 = .ok b ∧
      (∃ m ∈ a.entries, m.1 = "ssl" ∧ m.2.std = true ∧ m ∈ b.entries) ∧
      ∃ m ∈ a.entries, m.1 = "vendored" ∧ m.2.std = false ∧ m ∉ b.entries := by
  intro run
  have hmembers : run.1.toOption.map (fun a => a.entries.map fun m => (m.1, m.2.std)) =
      some [("app", false), ("ssl", true), ("os", true), ("vendored", false)] := by
    decide +kernel
  have hserves : vendoringParties.Serves .empty run.2 := Calculator.Serves.start.evaluate {} _
  have hafter := hserves.sound over_vendoringParties
  generalize run = run at hmembers hafter
  rcases houtcome : run.1 with e | a
  · rw [houtcome] at hmembers
    cases hmembers
  · rw [houtcome] at hmembers
    have hmap : a.entries.map (fun m => (m.1, m.2.std)) = _ := Option.some.inj hmembers
    rcases Calc.withoutStd_of_sound over_vendoringParties hafter.1 hafter.2 a with
      ⟨b, _, hrun, -, -, -, hmem⟩
    have hssl : ("ssl", true) ∈ a.entries.map fun m => (m.1, m.2.std) := by
      rw [hmap]
      decide
    have hvendored : ("vendored", false) ∈ a.entries.map fun m => (m.1, m.2.std) := by
      rw [hmap]
      decide
    rcases List.mem_map.1 hssl with ⟨m, hm, hfields⟩
    rcases List.mem_map.1 hvendored with ⟨n, hn, hfields'⟩
    rcases Prod.mk.inj hfields with ⟨hid, hstd⟩
    rcases Prod.mk.inj hfields' with ⟨hid', hstd'⟩
    refine ⟨a, b, rfl, congrArg Prod.fst hrun, ⟨m, hm, hid, hstd, ?_⟩, ⟨n, hn, hid', hstd', ?_⟩⟩
    · rw [hmem m hm, stdLeadsTo_vendoring_iff, hid]
      decide
    · rw [hmem n hn, stdLeadsTo_vendoring_iff, hid']
      decide

/-- Of the packages of the query the one with the tag and the one that needs it are left, although
    the standard library has been loaded before. -/
theorem mem_withoutStd_evaluate_iff_vendoring :
    let loaded := (Calc.withoutStd vendoringParties .empty { loader := .empty }).2
    let run := evaluate vendoringParties {} vendoringQuery loaded
    ∃ a b, run.1 = .ok a ∧ a.keys = ["app", "ssl", "os", "vendored"] ∧
      (Calc.withoutStd vendoringParties a run.2).1 = .ok b ∧
      ∀ m ∈ a.entries, m ∈ b.entries ↔ m.1 ≠ "os" ∧ m.1 ≠ "vendored" := by
  intro loaded run
  have hloaded : vendoringParties.Serves .empty loaded := Calculator.Serves.start.withoutStd .empty
  have hkeys : run.1.toOption.map (·.keys) = some ["app", "ssl", "os", "vendored"] := by
    decide +kernel
  have hleft := mem_withoutStd_evaluate_iff over_vendoringParties hloaded {} vendoringQuery
  change ∀ a, run.1 = .ok a → ∃ b, (Calc.withoutStd _ a run.2).1 = .ok b ∧ _ at hleft
  generalize run = run at hkeys hleft
  rcases houtcome : run.1 with e | a
  · rw [houtcome] at hkeys
    cases hkeys
  · rw [houtcome] at hkeys
    rcases hleft a houtcome with ⟨b, hb, -, hmem, -⟩
    refine ⟨a, b, rfl, Option.some.inj hkeys, hb, fun m hm => ?_⟩
    rw [hmem m hm, stdLeadsTo_vendoring_iff, not_or]

end PackageAlgebra
