import PackageAlgebra.Proofs.Calculator.Canonical
import PackageAlgebra.Proofs.Calculator.Service
import PackageAlgebra.Proofs.Package.Algebra
import PackageAlgebra.Proofs.Query.Grammar

/-!
# Names Side by Side

Names side by side stand for the union of what each of them stands for.

Names that are written side by side are not operands like others. Variables among them are put
first, and all other names are one question to the loader, which fails as a whole. Written with
operators between them, they are evaluated one by one, and each of them that is no variable is a
question of its own. The calls of the loader are different, and so are the errors, the order of
the ids and, where names overlap, the nodes. The ids are not. A name that is no variable is known
or unknown by itself, whatever the loader has been asked before and whatever it is asked about at
the same time, and what names stand for together is what they stand for one by one.

So each of the two ways has a set exactly if all names are known, and then the same ids.

## Main definitions

* `Expr.beside`, `Expr.chain`: Names side by side, and expressions with a function between them.
* `Loader.Service.Knows`, `Loader.Service.Means`: A name is known, and what it stands for.
* `Calc.Finds`: When a calculation has a set, and with which ids.

## Theorems

* `parseTokens_beside`, `parseTokens_chain`: How the two ways are written.
* `finds_package`, `finds_group`, `finds_plus`: A name, names side by side, and a sum.
* `evaluate_beside_iff_chain`: Names side by side and one by one.
-/

namespace PackageAlgebra

open Calc

variable {σ : Type} {cancelled : Nat → Bool} {parties : Calculator σ NodeRef} {ctx : Context}
  {name first : String} {names rest : List String}

/-! ### Two ways to write names -/

namespace Expr

/-- Names side by side. -/
def beside (names : List String) : Expr := .call "" (names.map .package)

/-- Expressions with a function of two arguments between them, from the left. -/
def chain (func : String) (first : Expr) (rest : List Expr) : Expr :=
  rest.foldl (fun e arg => .call func [e, arg]) first

end Expr

/-- The token of a name. -/
def Token.ofName (text : String) : Token := ⟨.package, text⟩

theorem spells_name (name : String) : Spells (.term (.package name)) [.ofName name] :=
  Spells.name (t := .ofName name) rfl

theorem spells_terms (name : String) (rest : List String) :
    Spells (.terms ((name :: rest).map .package)) ((name :: rest).map Token.ofName) := by
  induction rest generalizing name with
  | nil => exact .alone (spells_name name)
  | cons next rest ih => exact .beside (spells_name name) (ih next)

/-- A spelled expression is a query by itself, and is read as one. -/
theorem parseTokens_of_expression {e : Expr} {ts : List Token} (h : Spells (.expression e) ts) :
    parseTokens ts = .ok (some e) := by
  have hquery : Spells (.query (some e)) ts := .collapsed (.lastStatement (.value h))
  rcases hquery.readable with ⟨es, htree, hread⟩
  exact (parseTokens_eq_ok_iff ts (some e)).2 ⟨es, hread, htree⟩

/-- Names without anything between them are read as names side by side. -/
theorem parseTokens_beside (first second : String) (rest : List String) :
    parseTokens ((first :: second :: rest).map Token.ofName) =
      .ok (some (.beside (first :: second :: rest))) :=
  parseTokens_of_expression (.operand (.juxtaposed (spells_terms first (second :: rest))))

/-- Operands with an operator between them are spelled as a chain. -/
theorem spells_chain (op : String) {first : Expr} {ts : List Token}
    (h : Spells (.expression first) ts) {rest : List Expr} {tokens : List (List Token)}
    (hrest : List.Forall₂ (fun e us => Spells (.operand e) us) rest tokens) :
    Spells (.expression (.chain op first rest))
      (ts ++ tokens.flatMap fun us => ⟨.op, op⟩ :: us) := by
  induction hrest generalizing first ts with
  | nil => exact (List.append_nil _).symm ▸ h
  | cons hnext _ ih =>
      have hstep := ih (.operator (o := ⟨.op, op⟩) rfl h hnext)
      rw [List.append_assoc] at hstep
      exact hstep

/-- Operands with an operator between them are read from the left. -/
theorem parseTokens_chain (op : String) {first : Expr} {ts : List Token}
    (h : Spells (.operand first) ts) {rest : List Expr} {tokens : List (List Token)}
    (hrest : List.Forall₂ (fun e us => Spells (.operand e) us) rest tokens) :
    parseTokens (ts ++ tokens.flatMap fun us => ⟨.op, op⟩ :: us) =
      .ok (some (.chain op first rest)) :=
  parseTokens_of_expression (spells_chain op (.operand h) hrest)

/-- Names with an operator between them are read from the left. -/
theorem parseTokens_chain_names (op first : String) (rest : List String) :
    parseTokens (.ofName first :: rest.flatMap fun name => [⟨.op, op⟩, .ofName name]) =
      .ok (some (.chain op (.package first) (rest.map .package))) := by
  have hname : ∀ name, Spells (.operand (.package name)) [.ofName name] :=
    fun name => .single (.alone (spells_name name))
  have hrest : List.Forall₂ (fun e us => Spells (.operand e) us) (rest.map .package)
      (rest.map fun name => [.ofName name]) := by
    rw [List.forall₂_map_left_iff, List.forall₂_map_right_iff, List.forall₂_same]
    exact fun name _ => hname name
  have hparse := parseTokens_chain op (hname first) hrest
  rwa [List.flatMap_map] at hparse

theorem bareNames?_map_package (names : List String) :
    bareNames? (names.map .package) = some names := by
  induction names with
  | nil => rfl
  | cons name rest ih => rw [List.map_cons, bareNames?, ih, Option.map_some]

/-! ### What names stand for -/

section

variable {l : Loader σ NodeRef} (k : l.Service cancelled)
  (bindings : OrderedMap String (PackageSet NodeRef)) (config : LoadConfig)

/-- A name is known: it is bound, or the loader has a universe in which it stands for
    something. -/
def Loader.Service.Knows (name : String) : Prop :=
  bindings.contains name = true ∨
    k.refusal = none ∧ ((k.resolution config).matchesOf name).isSome = true

/-- A name stands for an id: that of a member of the variable, or of a package of the loader if the
    name is not bound. -/
def Loader.Service.Means (name id : String) : Prop :=
  match bindings.get? name with
  | some a => id ∈ a.keys
  | none => (k.resolution config).StandsFor name id

variable {k bindings config}

/-- All of some names are known if those are that are not bound. -/
theorem Loader.Service.forall_knows_iff : (∀ name ∈ names, k.Knows bindings config name) ↔
    ∀ name ∈ names.filter fun name => !bindings.contains name,
      k.refusal = none ∧ ((k.resolution config).matchesOf name).isSome = true := by
  unfold Loader.Service.Knows
  simp only [List.mem_filter, Bool.not_eq_true', ← Bool.not_eq_true, and_imp,
    Decidable.or_iff_not_imp_left]

/-- What some names stand for are the members of the variables among them, and what the others
    stand for. -/
theorem Loader.Service.exists_means_iff {id : String} :
    (∃ name ∈ names, k.Means bindings config name id) ↔
      (∃ a ∈ names.filterMap bindings.get?, id ∈ a.keys) ∨
        ∃ name ∈ names.filter fun name => !bindings.contains name,
          (k.resolution config).StandsFor name id := by
  constructor
  · rintro ⟨name, hname, hmeans⟩
    unfold Loader.Service.Means at hmeans
    cases hbound : bindings.get? name with
    | some a =>
        rw [hbound] at hmeans
        exact .inl ⟨a, List.mem_filterMap.2 ⟨name, hname, hbound⟩, hmeans⟩
    | none =>
        rw [hbound] at hmeans
        refine .inr ⟨name, List.mem_filter.2 ⟨hname, ?_⟩, hmeans⟩
        rw [OrderedMap.contains_eq_isSome, hbound]
        rfl
  · rintro (⟨a, ha, hid⟩ | ⟨name, hname, hstands⟩)
    · rcases List.mem_filterMap.1 ha with ⟨name, hname, hbound⟩
      refine ⟨name, hname, ?_⟩
      unfold Loader.Service.Means
      rwa [hbound]
    · rw [List.mem_filter, OrderedMap.contains_eq_isSome, Bool.not_eq_true',
        Option.isSome_eq_false_iff, Option.isNone_iff_eq_none] at hname
      refine ⟨name, hname.1, ?_⟩
      unfold Loader.Service.Means
      rwa [hname.2]

end

/-! ### Calculations that find ids -/

/-- From all states of a service with the same variables, a calculation has a set of certain ids if
    something is the case, and else an error; and it leaves the variables alone. -/
def Calc.Finds (k : parties.loader.Service cancelled)
    (bindings : OrderedMap String (PackageSet NodeRef)) (possible : Prop) (ids : String → Prop)
    (c : Calc σ NodeRef (PackageSet NodeRef)) : Prop :=
  ∀ s, k.States s.loader → s.bindings = bindings →
    ∃ t, k.States t.loader ∧ t.bindings = bindings ∧
      ((possible ∧ ∃ a, c s = (.ok a, t) ∧ ∀ x, x ∈ a.keys ↔ ids x) ∨
        (¬ possible ∧ ∃ cause, c s = (.error (.error cause), t)))

variable {k : parties.loader.Service cancelled}
  {bindings : OrderedMap String (PackageSet NodeRef)} {P Q : Prop} {I J : String → Prop}

/-- A load finds what the names stand for. -/
theorem finds_loadRoots {config : LoadConfig} (hconfig : config.cancelled = cancelled)
    (names : List String) :
    (loadRoots parties config names).Finds k bindings
      (k.refusal = none ∧ ∀ name ∈ names, ((k.resolution config).matchesOf name).isSome = true)
      (fun x => ∃ name ∈ names, (k.resolution config).StandsFor name x) := by
  intro s hs hbindings
  rcases loadRoots_eq k hconfig hs names with ⟨t, hload, ht, hkept, -, -⟩
  refine ⟨t, ht, hkept.trans hbindings, ?_⟩
  unfold Loader.Service.outcome at hload
  rw [← k.exists_answer_eq_ok_iff]
  cases hanswer : k.answer config names with
  | error e =>
      rw [hanswer] at hload
      refine .inr ⟨?_, _, hload⟩
      rintro ⟨roots, hroots⟩
      cases hroots
  | ok roots =>
      rw [hanswer] at hload
      exact .inl ⟨⟨roots, rfl⟩, _, hload, fun x => k.mem_keys_of_answer hanswer⟩

/-- A name finds what it stands for. -/
theorem finds_package (hctx : ctx.cancelled = cancelled) (name : String) :
    (evaluate parties ctx (.package name)).Finds k bindings (k.Knows bindings ctx.config name)
      (k.Means bindings ctx.config name) := by
  intro s hs hbindings
  rw [evaluate_package, hbindings]
  unfold Loader.Service.Knows Loader.Service.Means
  rw [OrderedMap.contains_eq_isSome]
  cases bindings.get? name with
  | some a => exact ⟨s, hs, hbindings, .inl ⟨.inl rfl, a, rfl, fun _ => Iff.rfl⟩⟩
  | none =>
      have hconfig : ctx.config.cancelled = cancelled := hctx
      have hfinds := finds_loadRoots (k := k) hconfig [name] s hs hbindings
      simp only [List.forall_mem_singleton] at hfinds
      simpa only [List.mem_singleton, exists_eq_left, Option.isSome_none, Bool.false_eq_true,
        false_or] using hfinds

/-- Names side by side find what one of them stands for, if all of them are known. -/
theorem finds_beside (hctx : ctx.cancelled = cancelled) (hne : names ≠ []) :
    (evaluate parties ctx (.beside names)).Finds k bindings
      (∀ name ∈ names, k.Knows bindings ctx.config name)
      (fun x => ∃ name ∈ names, k.Means bindings ctx.config name x) := by
  intro s hs hbindings
  have heval : evaluate parties ctx (.beside names) = evaluateGroup parties ctx names := by
    cases names with
    | nil => exact absurd rfl hne
    | cons name rest => exact evaluate_group (bareNames?_map_package (name :: rest))
  have hget : (get : Calc σ NodeRef _) s = (.ok s, s) := rfl
  rw [heval, Loader.Service.forall_knows_iff]
  simp only [Loader.Service.exists_means_iff]
  unfold evaluateGroup
  rw [bind_ok hget, hbindings]
  cases hpatterns : names.filter fun name => !bindings.contains name with
  | nil =>
      -- There are only variables, and nothing is loaded.
      refine ⟨s, hs, hbindings, .inl ⟨fun _ h => absurd h List.not_mem_nil, _, rfl, fun x => ?_⟩⟩
      rw [PackageSet.mem_keys_unionAll]
      simp only [List.not_mem_nil, false_and, exists_false, or_false]
  | cons name rest =>
      have hconfig : ctx.config.cancelled = cancelled := hctx
      rcases finds_loadRoots (k := k) hconfig (name :: rest) s hs hbindings with
        ⟨t, ht, htbindings, ⟨⟨hnone, hall⟩, a, hload, hkeys⟩ | ⟨hnot, cause, hload⟩⟩
      · refine ⟨t, ht, htbindings, .inl ⟨fun n hn => ⟨hnone, hall n hn⟩, _, bind_ok hload,
          fun x => ?_⟩⟩
        rw [PackageSet.mem_keys_unionAll]
        simp only [List.mem_append, List.mem_singleton, or_and_right, exists_or, exists_eq_left,
          hkeys]
      · refine ⟨t, ht, htbindings, .inr ⟨fun hall => hnot ?_, cause, bind_error hload⟩⟩
        exact ⟨(hall name List.mem_cons_self).1, fun n hn => (hall n hn).2⟩

/-- A sum finds what its operands find, if both of them find something. -/
theorem finds_plus {e f : Expr} (he : (evaluate parties ctx e).Finds k bindings P I)
    (hf : (evaluate parties ctx f).Finds k bindings Q J) :
    (evaluate parties ctx (.call "+" [e, f])).Finds k bindings (P ∧ Q) (fun x => I x ∨ J x) := by
  intro s hs hbindings
  have hplus : Joins "+" .union := ⟨by decide, by decide, by decide⟩
  rw [evaluate_joins hplus]
  rcases he s hs hbindings with ⟨t, ht, htbindings, hfirst⟩
  rcases hf t ht htbindings with ⟨u, hu, hubindings, hsecond⟩
  refine ⟨u, hu, hubindings, ?_⟩
  have hnil : evaluateEach parties ctx [] u = (.ok ([], []), u) := rfl
  -- The second operand is evaluated even if the first one fails.
  rcases hfirst with ⟨hP, a, hrun, ha⟩ | ⟨hP, cause, hrun⟩ <;>
    rcases hsecond with ⟨hQ, b, hrun', hb⟩ | ⟨hQ, cause', hrun'⟩
  · refine .inl ⟨⟨hP, hQ⟩, a.union b, ?_, fun x => ?_⟩
    · rw [bind_ok (evaluateEach_cons_ok hrun (evaluateEach_cons_ok hrun' hnil))]
      rfl
    · rw [PackageSet.mem_keys_union, ha, hb]
  · refine .inr ⟨fun h => hQ h.2, .combine [cause'], ?_⟩
    rw [bind_ok (evaluateEach_cons_ok hrun (evaluateEach_cons_error hrun' hnil))]
    rfl
  · refine .inr ⟨fun h => hP h.1, .combine [cause], ?_⟩
    rw [bind_ok (evaluateEach_cons_error hrun (evaluateEach_cons_ok hrun' hnil))]
    rfl
  · refine .inr ⟨fun h => hP h.1, .combine [cause, cause'], ?_⟩
    rw [bind_ok (evaluateEach_cons_error hrun (evaluateEach_cons_error hrun' hnil))]
    rfl

/-- Names one by one find what one of them stands for, if all of them are known. -/
theorem finds_chain (hctx : ctx.cancelled = cancelled) {e : Expr}
    (he : (evaluate parties ctx e).Finds k bindings P I) (rest : List String) :
    (evaluate parties ctx (.chain "+" e (rest.map .package))).Finds k bindings
      (P ∧ ∀ name ∈ rest, k.Knows bindings ctx.config name)
      (fun x => I x ∨ ∃ name ∈ rest, k.Means bindings ctx.config name x) := by
  induction rest generalizing e P I with
  | nil =>
      simp only [List.not_mem_nil, false_implies, implies_true, and_true, false_and, exists_false,
        or_false]
      exact he
  | cons name rest ih =>
      have hstep := ih (finds_plus he (finds_package hctx name))
      simp only [List.forall_mem_cons, List.exists_mem_cons_iff, ← and_assoc, ← or_assoc]
      exact hstep

/-- Two calculations that find the same under the same condition have sets at the same time, and
    with the same ids. -/
theorem Calc.Finds.iff {c d : Calc σ NodeRef (PackageSet NodeRef)} {s : CalcState σ NodeRef}
    (hc : c.Finds k bindings P I) (hd : d.Finds k bindings Q J) (hPQ : P ↔ Q)
    (hIJ : ∀ x, I x ↔ J x) (hs : k.States s.loader) (hbindings : s.bindings = bindings) :
    ((∃ a, (c s).1 = .ok a) ↔ ∃ b, (d s).1 = .ok b) ∧
      ∀ a b, (c s).1 = .ok a → (d s).1 = .ok b → ∀ x, x ∈ a.keys ↔ x ∈ b.keys := by
  rcases hc s hs hbindings with ⟨t, -, -, ⟨hP, a, hrun, ha⟩ | ⟨hP, cause, hrun⟩⟩ <;>
    rcases hd s hs hbindings with ⟨u, -, -, ⟨hQ, b, hrun', hb⟩ | ⟨hQ, cause', hrun'⟩⟩ <;>
    rw [hrun, hrun']
  · refine ⟨iff_of_true ⟨a, rfl⟩ ⟨b, rfl⟩, fun a' b' ha' hb' x => ?_⟩
    rw [← Except.ok.inj ha', ← Except.ok.inj hb', ha, hb, hIJ]
  · exact absurd (hPQ.1 hP) hQ
  · exact absurd (hPQ.2 hQ) hP
  · refine ⟨iff_of_false ?_ ?_, fun _ _ h => by cases h⟩
    · exact fun ⟨_, h⟩ => by cases h
    · exact fun ⟨_, h⟩ => by cases h

/-- In a service, names side by side and one by one have sets at the same time, and with the same
    ids. -/
theorem evaluate_beside_of_service (parties : Calculator σ NodeRef)
    (k : parties.loader.Service ctx.cancelled) {s : CalcState σ NodeRef} (hs : k.States s.loader)
    (first : String) (rest : List String) :
    let beside := evaluate parties ctx (.beside (first :: rest)) s
    let chain := evaluate parties ctx (.chain "+" (.package first) (rest.map .package)) s
    ((∃ a, beside.1 = .ok a) ↔ ∃ b, chain.1 = .ok b) ∧
      ∀ a b, beside.1 = .ok a → chain.1 = .ok b → ∀ x, x ∈ a.keys ↔ x ∈ b.keys := by
  refine Calc.Finds.iff (finds_beside (k := k) rfl (List.cons_ne_nil first rest))
    (finds_chain rfl (finds_package rfl first) rest) ?_ (fun x => ?_) hs rfl
  · rw [List.forall_mem_cons]
  · rw [List.exists_mem_cons_iff]

/-- Two or more names, each a variable, an id, a wildcard or the name of the standard library, have
    a set side by side if and only if they have one with operators between them, and then the two
    sets have the same ids. That is so for both loaders, whatever they were asked before, in every
    context and with all variables; and it is so for the tokens from which the two are read. -/
theorem evaluate_beside_iff_chain (history : List Question) (ctx : Context)
    (first second : String) (rest : List String) :
    (parseTokens ((first :: second :: rest).map Token.ofName) =
        .ok (some (.beside (first :: second :: rest))) ∧
      parseTokens (.ofName first ::
          (second :: rest).flatMap fun name => [⟨.op, "+"⟩, .ofName name]) =
        .ok (some (.chain "+" (.package first) ((second :: rest).map .package)))) ∧
    (∀ (records : List PackageRecord) (oracle : Option (Oracle UniverseTable))
        (envKeys : List String) (s : CalcState UniverseTable NodeRef),
      let parties : Calculator UniverseTable NodeRef := ⟨recordLoader records, oracle, envKeys⟩
      let start := { s with loader := parties.loader.after history .empty }
      let beside := evaluate parties ctx (.beside (first :: second :: rest)) start
      let chain := evaluate parties ctx
        (.chain "+" (.package first) ((second :: rest).map .package)) start
      ((∃ a, beside.1 = .ok a) ↔ ∃ b, chain.1 = .ok b) ∧
        ∀ a b, beside.1 = .ok a → chain.1 = .ok b → ∀ x, x ∈ a.keys ↔ x ∈ b.keys) ∧
    (∀ (tree : SourceTree) (oracle : Option (Oracle SourceState)) (envKeys : List String)
        (s : CalcState SourceState NodeRef),
      let parties : Calculator SourceState NodeRef := ⟨sourceLoader tree, oracle, envKeys⟩
      let start := { s with loader := parties.loader.after history {} }
      let beside := evaluate parties ctx (.beside (first :: second :: rest)) start
      let chain := evaluate parties ctx
        (.chain "+" (.package first) ((second :: rest).map .package)) start
      ((∃ a, beside.1 = .ok a) ↔ ∃ b, chain.1 = .ok b) ∧
        ∀ a b, beside.1 = .ok a → chain.1 = .ok b → ∀ x, x ∈ a.keys ↔ x ∈ b.keys) := by
  have hchain := parseTokens_chain_names "+" first (second :: rest)
  refine ⟨⟨parseTokens_beside first second rest, hchain⟩, fun records oracle envKeys s => ?_,
    fun tree oracle envKeys s => ?_⟩
  · have hbuilt : ((recordLoader records).after history .empty).BuiltFrom records :=
      UniverseTable.builtFrom_empty.after history
    exact evaluate_beside_of_service ⟨recordLoader records, oracle, envKeys⟩
      (s := { s with loader := _ }) (recordService records ctx.cancelled) hbuilt first
      (second :: rest)
  · have hfound : ((sourceLoader tree).after history {}).FoundIn tree :=
      SourceState.foundIn_empty.after history
    rcases exists_service_sourceLoader hfound ctx.cancelled with ⟨k, hk, -⟩
    exact evaluate_beside_of_service ⟨sourceLoader tree, oracle, envKeys⟩
      (s := { s with loader := _ }) k hk first (second :: rest)

/-- A calculation over a package, one under a tag and a test package, in which a name is bound to
    the one under the tag. -/
def boundState : CalcState UniverseTable NodeRef where
  loader := .empty
  bindings := .insert .empty "x" (.ofRoots [PackageRecord.bareNode { id := "b" }])

/-- A variable, an id that comes twice, also with its test, and everything: side by side the
    variable comes first, one by one the package does, and the ids are the same. -/
theorem evaluate_beside_iff_chain_overlapping :
    let parties : Calculator UniverseTable NodeRef := { loader := recordLoader taggedRecords }
    let names := ["...", "x", "a"]
    let beside := evaluate parties { tags := ["test=1"] } (.beside ("a" :: names)) boundState
    let chain := evaluate parties { tags := ["test=1"] }
      (.chain "+" (.package "a") (names.map .package)) boundState
    ∃ a b, beside.1 = .ok a ∧ chain.1 = .ok b ∧ a.keys = ["b", "a", "a_test"] ∧
      b.keys = ["a", "a_test", "b"] ∧ ∀ x, x ∈ a.keys ↔ x ∈ b.keys := by
  intro parties names beside chain
  rcases evaluate_beside_iff_chain [] { tags := ["test=1"] } "a" "..." ["x", "a"] with
    ⟨-, hrecords, -⟩
  rcases hrecords taggedRecords none defaultEnvKeys boundState with ⟨hiff, hids⟩
  have hbeside : beside.1.toOption.map (·.keys) = some ["b", "a", "a_test"] := by decide +kernel
  have hchain : chain.1.toOption.map (·.keys) = some ["a", "a_test", "b"] := by decide +kernel
  rcases ha : beside.1 with e | a
  · rw [ha] at hbeside
    cases hbeside
  rcases hiff.1 ⟨a, ha⟩ with ⟨b, hb⟩
  have hb' : chain.1 = .ok b := hb
  rw [ha] at hbeside
  rw [hb'] at hchain
  exact ⟨a, b, rfl, hb, Option.some.inj hbeside, Option.some.inj hchain, hids a b ha hb⟩

end PackageAlgebra
