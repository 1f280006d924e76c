import PackageAlgebra.Proofs.Script.Enclosing

/-!
# Lookups of a Module

Which symbols of a module are dynamic, and which calls have a symbol to come from.

The symbols of a module are read off its top level: the body of the module, its functions, and
the methods of its classes. Calls are found by a visit that goes everywhere, and each counts
towards the outermost function around it. Both ways of naming a function agree where they meet,
but they do not always meet. A function in a condition, or a method in a class within a class, is
the outermost function around its calls and has no symbol of its own. A lookup that happens there
makes nothing dynamic, and a call from there comes from a symbol that the module does not have.

So nothing is lost if the names that calls count towards are declared at the top level, and it is
lost otherwise. The name alone decides: a function in a condition may share it with one at the top
level, and its calls are then taken for those of the other.

## Main definitions

* `IsLookup`: What is called looks members or modules up by name.
* `Declares`: A name is that of a symbol of the module.
* `LooksUp`: A lookup counts towards a name.
* `DeclaresOutermost`: All functions that are not in a function are declared.

## Theorems

* `mem_symbolNames_iff`: The names that get symbols are those that are declared.
* `get?_nodes_eq_some_iff`: The symbols of a module, and the dynamic ones among them.
* `mem_calls_iff`: The calls of a module.
* `moduleCalls_keeps_declared`: What is found, and what is lost.
* `moduleCalls_loses_lookup`: A lookup that makes nothing dynamic.
-/

namespace PackageAlgebra.Script

/-- What is called looks members or modules up by name: a function of that name, or a member. -/
def IsLookup (func : Tree) : Prop :=
  ∃ name ∈ lookups, func = .name name ∨ ∃ owner, func = .member owner name

/-- A name is that of a symbol of the module: the body, a function at the top level, or a method
    that stands directly in a class at the top level. -/
def Declares (statements : List Tree) (name : String) : Prop :=
  name = moduleBody ∨
    (∃ signature body closing, .function name signature body closing ∈ statements) ∨
    ∃ c bases members decorators, .classDef c bases members decorators ∈ statements ∧
      ∃ f signature body closing, .function f signature body closing ∈ members ∧
        c ++ "." ++ f = name

/-- A lookup occurs in the statements of a module, and counts towards a name. -/
def LooksUp (statements : List Tree) (name : String) : Prop :=
  ∃ t ∈ statements, ∃ path func args, t.Holds path (.call func args) ∧ IsLookup func ∧
    home path = name

/-- All functions that are not in a function are declared. -/
def DeclaresOutermost (statements : List Tree) : Prop :=
  ∀ t ∈ statements, ∀ path f signature body closing,
    t.Holds path (.function f signature body closing) → outermost? [] path = none →
      Declares statements (home (path ++ [.function f]))

variable {module name symbol source target : String} {statements : List Tree} {node : CallNode}

theorem isLookup_iff {func : Tree} :
    (calledName? func).any lookups.contains = true ↔ IsLookup func := by
  unfold IsLookup
  cases func <;> simp [calledName?]

theorem symbolOf_inj {m n : String} : symbolOf module m = symbolOf module n ↔ m = n := by
  unfold symbolOf
  rw [← String.toList_inj, String.toList_append, String.toList_append (t := n),
    List.append_cancel_left_eq, String.toList_inj]

/-! ### Symbols -/

/-- The names of symbols are those that the top level declares. -/
theorem mem_symbolNames_iff :
    name ∈ moduleBody :: statements.flatMap symbolNames ↔ Declares statements name := by
  rw [List.mem_cons, List.mem_flatMap]
  refine or_congr Iff.rfl ?_
  constructor
  · rintro ⟨t, ht, hname⟩
    cases t with
    | function f signature body closing =>
        rw [symbolNames, List.mem_singleton] at hname
        subst hname
        exact .inl ⟨signature, body, closing, ht⟩
    | classDef c bases members decorators =>
        rcases List.mem_filterMap.1 hname with ⟨u, hu, hmethod⟩
        cases u with
        | function f signature body closing =>
            exact .inr ⟨c, bases, members, decorators, ht, f, signature, body, closing, hu,
              Option.some.inj hmethod⟩
        | _ => cases hmethod
    | _ => exact absurd hname List.not_mem_nil
  · rintro (⟨signature, body, closing, ht⟩ |
      ⟨c, bases, members, decorators, ht, f, signature, body, closing, hf, rfl⟩)
    · exact ⟨_, ht, List.mem_singleton_self name⟩
    · exact ⟨_, ht, List.mem_filterMap.2 ⟨_, hf, rfl⟩⟩

/-- The callers of lookups are the symbols of the names that lookups count towards. -/
theorem mem_callers_lookups_iff (module : String) :
    symbolOf module name ∈ ((callSites none [] statements).filter fun site =>
      (calledName? site.called).any lookups.contains).map (caller module) ↔
        LooksUp statements name := by
  rw [List.mem_map]
  constructor
  · rintro ⟨site, hsite, hsymbol⟩
    rw [List.mem_filter, isLookup_iff, mem_callSites_iff] at hsite
    rcases hsite with ⟨⟨t, ht, path, func, args, hholds, rfl⟩, hlookup⟩
    exact ⟨t, ht, path, func, args, hholds, hlookup, symbolOf_inj.1 hsymbol⟩
  · rintro ⟨t, ht, path, func, args, hholds, hlookup, rfl⟩
    refine ⟨⟨outermost? [] path, func⟩, ?_, rfl⟩
    rw [List.mem_filter, isLookup_iff, mem_callSites_iff]
    exact ⟨⟨t, ht, path, func, args, hholds, rfl⟩, hlookup⟩

/-- The symbols of a module are those of the names that it declares. A symbol is dynamic if a lookup
    counts towards its name. -/
theorem get?_nodes_eq_some_iff :
    (moduleCalls module statements).nodes.get? symbol = some node ↔
      ∃ name, symbolOf module name = symbol ∧ Declares statements name ∧ node.module = module ∧
        (node.dynamic = true ↔ LooksUp statements name) := by
  let names := moduleBody :: statements.flatMap symbolNames
  let dynamic := ((callSites none [] statements).filter fun site =>
    (calledName? site.called).any lookups.contains).map (caller module)
  have hnodes : (moduleCalls module statements).nodes = .ofList ((names.map (symbolOf module)).map
      fun symbol => (symbol, ⟨module, dynamic.contains symbol⟩)) := by
    rw [List.map_map]
    rfl
  have hnode : ∀ name, node = ⟨module, dynamic.contains (symbolOf module name)⟩ ↔
      node.module = module ∧ (node.dynamic = true ↔ LooksUp statements name) := by
    intro name
    rw [← mem_callers_lookups_iff module, ← List.contains_iff_mem, Bool.coe_iff_coe]
    cases node
    rw [CallNode.mk.injEq]
  rw [hnodes, OrderedMap.get?_ofList_map, Option.ite_none_right_eq_some, Option.some.injEq,
    List.mem_map]
  constructor
  · rintro ⟨⟨name, hname, rfl⟩, hvalue⟩
    exact ⟨name, rfl, mem_symbolNames_iff.1 hname, (hnode name).1 hvalue.symm⟩
  · rintro ⟨name, rfl, hdeclared, hvalue⟩
    exact ⟨⟨name, mem_symbolNames_iff.2 hdeclared, rfl⟩, ((hnode name).2 hvalue).symm⟩

/-- A name has a symbol if it is declared. -/
theorem symbolOf_mem_keys_iff :
    symbolOf module name ∈ (moduleCalls module statements).nodes.keys ↔
      Declares statements name := by
  rw [OrderedMap.mem_keys_iff]
  constructor
  · rintro ⟨node, hnode⟩
    rcases get?_nodes_eq_some_iff.1 hnode with ⟨other, hsymbol, hdeclared, -⟩
    rwa [← symbolOf_inj.1 hsymbol]
  · intro hdeclared
    by_cases hlookup : LooksUp statements name
    · exact ⟨⟨module, true⟩, get?_nodes_eq_some_iff.2
        ⟨name, rfl, hdeclared, rfl, iff_of_true rfl hlookup⟩⟩
    · exact ⟨⟨module, false⟩, get?_nodes_eq_some_iff.2
        ⟨name, rfl, hdeclared, rfl, iff_of_false Bool.false_ne_true hlookup⟩⟩

/-! ### Calls -/

/-- The calls of a module are those that occur in it and whose form tells what is called. Each
    comes from the symbol of the name that it counts towards. -/
theorem mem_calls_iff : (source, target) ∈ (moduleCalls module statements).calls ↔
    ∃ t ∈ statements, ∃ path func args, t.Holds path (.call func args) ∧
      symbolOf module (home path) = source ∧
      callee? module (bindings statements) ⟨outermost? [] path, func⟩ = some target := by
  unfold moduleCalls
  rw [List.mem_filterMap]
  constructor
  · rintro ⟨site, hsite, hcall⟩
    rcases mem_callSites_iff.1 hsite with ⟨t, ht, path, func, args, hholds, rfl⟩
    rcases Option.map_eq_some_iff.1 hcall with ⟨_, hcallee, hpair⟩
    cases hpair
    exact ⟨t, ht, path, func, args, hholds, rfl, hcallee⟩
  · rintro ⟨t, ht, path, func, args, hholds, rfl, hcallee⟩
    refine ⟨_, mem_callSites_iff.2 ⟨t, ht, path, func, args, hholds, rfl⟩, ?_⟩
    rw [hcallee]
    rfl

/-- Where all outermost functions are declared, calls count towards declared names. -/
theorem DeclaresOutermost.declares_home (h : DeclaresOutermost statements) {t u : Tree}
    (ht : t ∈ statements) {path : List Frame} (hholds : t.Holds path u) :
    Declares statements (home path) := by
  unfold home
  cases hname : outermost? [] path with
  | none => exact .inl rfl
  | some name =>
      rcases hholds.exists_outermost hname with
        ⟨above, f, signature, body, closing, hfunction, hnone, hsame⟩
      have hdeclared := h t ht above f signature body closing hfunction hnone
      unfold home at hdeclared
      rwa [hsame] at hdeclared

/-- The symbols of a module are those of the names that its top level declares, and those are
    dynamic towards whose names lookups count. Its calls are those that occur in it and whose form
    tells what is called, each from the symbol of the name that it counts towards. So there is a
    dynamic symbol if and only if a lookup counts towards a name that is declared, and each call
    comes from a symbol of the module if and only if all such calls count towards names that are
    declared. Nothing is lost if all functions that are not in a function are declared. -/
theorem moduleCalls_keeps_declared (module : String) (statements : List Tree) :
    let g := moduleCalls module statements
    (∀ symbol node, g.nodes.get? symbol = some node ↔
      ∃ name, symbolOf module name = symbol ∧ Declares statements name ∧ node.module = module ∧
        (node.dynamic = true ↔ LooksUp statements name)) ∧
    (∀ source target, (source, target) ∈ g.calls ↔
      ∃ t ∈ statements, ∃ path func args, t.Holds path (.call func args) ∧
        symbolOf module (home path) = source ∧
        callee? module (bindings statements) ⟨outermost? [] path, func⟩ = some target) ∧
    ((∃ e ∈ g.nodes.entries, e.2.dynamic = true) ↔
      ∃ name, LooksUp statements name ∧ Declares statements name) ∧
    ((∀ e ∈ g.calls, e.1 ∈ g.nodes.keys) ↔
      ∀ t ∈ statements, ∀ path func args, t.Holds path (.call func args) →
        (callee? module (bindings statements) ⟨outermost? [] path, func⟩).isSome = true →
          Declares statements (home path)) ∧
    (DeclaresOutermost statements → (∀ name, LooksUp statements name → Declares statements name) ∧
      ∀ e ∈ g.calls, e.1 ∈ g.nodes.keys) := by
  intro g
  refine ⟨fun _ _ => get?_nodes_eq_some_iff, fun _ _ => mem_calls_iff, ?_, ?_, fun houtermost => ?_⟩
  · constructor
    · rintro ⟨⟨symbol, node⟩, he, hdynamic⟩
      rcases get?_nodes_eq_some_iff.1 (OrderedMap.get?_eq_some_iff.2 he) with
        ⟨name, -, hdeclared, -, hlookup⟩
      exact ⟨name, hlookup.1 hdynamic, hdeclared⟩
    · rintro ⟨name, hlookup, hdeclared⟩
      have hnode : g.nodes.get? (symbolOf module name) = some ⟨module, true⟩ :=
        get?_nodes_eq_some_iff.2 ⟨name, rfl, hdeclared, rfl, iff_of_true rfl hlookup⟩
      exact ⟨_, OrderedMap.get?_eq_some_iff.1 hnode, rfl⟩
  · constructor
    · intro hcallers t ht path func args hholds hcallee
      rcases Option.isSome_iff_exists.1 hcallee with ⟨target, htarget⟩
      have hcall := mem_calls_iff.2 ⟨t, ht, path, func, args, hholds, rfl, htarget⟩
      exact symbolOf_mem_keys_iff.1 (hcallers _ hcall)
    · rintro hdeclared ⟨source, target⟩ he
      rcases mem_calls_iff.1 he with ⟨t, ht, path, func, args, hholds, rfl, htarget⟩
      refine symbolOf_mem_keys_iff.2 (hdeclared t ht path func args hholds ?_)
      rw [htarget]
      rfl
  · constructor
    · rintro _ ⟨t, ht, path, func, args, hholds, -, rfl⟩
      exact houtermost.declares_home ht hholds
    · rintro ⟨source, target⟩ he
      rcases mem_calls_iff.1 he with ⟨t, ht, path, func, args, hholds, rfl, -⟩
      exact symbolOf_mem_keys_iff.2 (houtermost.declares_home ht hholds)

/-- A module with a function, and with another one in a condition, which calls the first and looks
    up a member. -/
def conditionalModule : List Tree :=
  [.function "g" [] [.form []] [],
    .branch (.name "x")
      [.function "f" []
        [.form [.call (.name "g") []],
          .form [.call (.name "getattr") [.name "a", .name "b"]]] []] []]

/-- The lookup makes no symbol dynamic, and the call comes from a symbol that the module does not
    have. -/
theorem moduleCalls_loses_lookup :
    let g := moduleCalls "m" conditionalModule
    LooksUp conditionalModule "f" ∧ (∀ e ∈ g.nodes.entries, e.2.dynamic = false) ∧
      ("m:f", "m:g") ∈ g.calls ∧ "m:f" ∉ g.nodes.keys := by
  refine ⟨?_, by decide +kernel, by decide +kernel, by decide +kernel⟩
  have hlookup : IsLookup (.name "getattr") := ⟨"getattr", by decide, .inl rfl⟩
  have hform : (Tree.form [.call (.name "getattr") [.name "a", .name "b"]]).Holds []
      (.call (.name "getattr") [.name "a", .name "b"]) :=
    .part (List.mem_singleton_self _) (.self _)
  have hfunction : (Tree.branch (.name "x") [.function "f" [] [.form [.call (.name "g") []],
      .form [.call (.name "getattr") [.name "a", .name "b"]]] []] []).Holds [.function "f"]
      (.call (.name "getattr") [.name "a", .name "b"]) :=
    .part (List.mem_cons_of_mem _ List.mem_cons_self)
      (.part (List.mem_cons_of_mem _ List.mem_cons_self) hform)
  exact ⟨_, List.mem_cons_of_mem _ List.mem_cons_self, _, _, _, hfunction, hlookup, rfl⟩

end PackageAlgebra.Script
