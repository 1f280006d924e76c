import PackageAlgebra.Symbol.SourceOracle
import Mathlib.Data.List.Forall2

/-!
# Modules Put Together

What is left of the modules of several files in one call graph.

The files of a package are modules of one name, so they share symbols: the body of the module
at least, and each function that two of them define. The symbols of all files are written into
one map, and of two symbols of one name the later one stands. Which symbols and which calls there
are does not depend on the order of the files, since nothing is taken out again. Whether a symbol
is dynamic does depend on it. The last file that has the symbol decides, and what an earlier one
found in a body or a function of that name is forgotten.

So the dynamic symbols of the files are all annotated if the files agree on the symbols that they
share, and this is the only case in which the order is of no account. Any file can be made the last
one: its package is put behind the others, and the file behind the others of its package. If two
files disagree on a symbol, the graph with the one at the end is therefore not that with the other.

## Main definitions

* `ModuleCalls.IsDynamic`: A symbol of a module is dynamic.
* `CallGraph.modulesOf`: The modules among the files of packages.
* `CallGraph.LastWith`: The last module that has a symbol.
* `CallGraph.Agree`: Modules agree on the symbols that they share.
* `CallGraph.Rearranged`: The same packages and files in another order.

## Theorems

* `CallGraph.get?_ofModules`: The last symbol of a name stands.
* `CallGraph.mem_annotated_ofModules_iff`: The last module that has a symbol decides.
* `CallGraph.perm_edges_ofModules`: The calls do not depend on the order.
* `CallGraph.exists_rearranged_last`: Any module can be made the last one.
* `CallGraph.agree_of_rearranged`: Files agree if their order is of no account.
* `CallGraph.ofFiles_annotates_last`: What is annotated, and when the order is of no account.
* `CallGraph.ofFiles_forgets_dynamic`: A file without lookups behind one with them.
-/

namespace PackageAlgebra

open Script (CallNode ModuleCalls)

/-- A symbol of a module looks members or modules up by name. -/
def Script.ModuleCalls.IsDynamic (m : ModuleCalls) (symbol : String) : Prop :=
  ∃ node, m.nodes.get? symbol = some node ∧ node.dynamic = true

theorem Script.ModuleCalls.IsDynamic.mem_keys {m : ModuleCalls} {symbol : String}
    (h : m.IsDynamic symbol) : symbol ∈ m.nodes.keys := by
  rcases h with ⟨node, hnode, _⟩
  exact OrderedMap.mem_keys_iff.2 ⟨node, hnode⟩

namespace CallGraph

/-- The modules among the files of packages, in the order in which they are read. -/
def modulesOf (files : FileSystem) (packages : List (String × List String)) : List ModuleCalls :=
  packages.flatMap fun (id, paths) => paths.filterMap (ofFile? files id)

/-- A module is the last one that has a symbol. -/
def LastWith (modules : List ModuleCalls) (symbol : String) (m : ModuleCalls) : Prop :=
  ∃ before after, modules = before ++ m :: after ∧ symbol ∈ m.nodes.keys ∧
    ∀ n ∈ after, symbol ∉ n.nodes.keys

/-- Modules agree on the symbols that they share. -/
def Agree (modules : List ModuleCalls) : Prop :=
  ∀ m ∈ modules, ∀ n ∈ modules, ∀ symbol, m.IsDynamic symbol → symbol ∈ n.nodes.keys →
    n.IsDynamic symbol

/-- The same packages in another order, each with the same files in another order. -/
def Rearranged (packages packages' : List (String × List String)) : Prop :=
  ∃ moved, packages.Perm moved ∧
    List.Forall₂ (fun p q => p.1 = q.1 ∧ p.2.Perm q.2) moved packages'

variable {files : FileSystem} {packages packages' : List (String × List String)}
  {modules modules' : List ModuleCalls} {m n : ModuleCalls} {symbol : String}

/-! ### What stands -/

/-- The symbol of a name is that of the last module that has one. -/
theorem get?_ofModules (modules : List ModuleCalls) (symbol : String) :
    (ofModules modules).nodes.get? symbol =
      modules.reverse.findSome? fun m => m.nodes.get? symbol := by
  have hwritten : ∀ nodes : OrderedMap String CallNode,
      ((modules.flatMap fun m => m.nodes.entries).foldl (fun nodes e => nodes.insert e.1 e.2)
        nodes).get? symbol =
        (modules.reverse.findSome? fun m => m.nodes.get? symbol).or (nodes.get? symbol) := by
    induction modules with
    | nil => intro nodes; rfl
    | cons m rest ih =>
        intro nodes
        have hnodes := OrderedMap.get?_foldl_insert m.nodes (fun _ node => node) nodes symbol
        rw [Option.map_id'] at hnodes
        rw [List.flatMap_cons, List.foldl_append, ih, hnodes, List.reverse_cons,
          List.findSome?_append, List.findSome?_singleton, Option.or_assoc]
  have hempty := hwritten .empty
  rw [show (OrderedMap.empty : OrderedMap String CallNode).get? symbol = none from rfl,
    Option.or_none] at hempty
  exact hempty

theorem get?_ofModules_eq_some_iff {node : CallNode} :
    (ofModules modules).nodes.get? symbol = some node ↔
      ∃ m, LastWith modules symbol m ∧ m.nodes.get? symbol = some node := by
  have hnone : ∀ n : ModuleCalls, n.nodes.get? symbol = none ↔ symbol ∉ n.nodes.keys := by
    intro n
    rw [OrderedMap.mem_keys_iff, ← Option.isSome_iff_exists, Option.not_isSome_iff_eq_none]
  rw [get?_ofModules, List.findSome?_eq_some_iff]
  constructor
  · rintro ⟨after, m, before, hmodules, hnode, hafter⟩
    have hsymbol := OrderedMap.mem_keys_iff.2 ⟨node, hnode⟩
    refine ⟨m, ⟨before.reverse, after.reverse, ?_, hsymbol, ?_⟩, hnode⟩
    · rw [← List.reverse_reverse modules, hmodules, List.reverse_append, List.reverse_cons,
        List.append_assoc, List.singleton_append]
    · intro n hn
      exact (hnone n).1 (hafter n (List.mem_reverse.1 hn))
  · rintro ⟨m, ⟨before, after, rfl, _, hafter⟩, hnode⟩
    refine ⟨after.reverse, m, before.reverse, ?_, hnode, ?_⟩
    · rw [List.reverse_append, List.reverse_cons, List.append_assoc, List.singleton_append]
    · intro n hn
      exact (hnone n).2 (hafter n (List.mem_reverse.1 hn))

/-- The symbols are those of all modules. -/
theorem mem_keys_ofModules_iff :
    symbol ∈ (ofModules modules).nodes.keys ↔ ∃ m ∈ modules, symbol ∈ m.nodes.keys := by
  unfold ofModules
  rw [OrderedMap.mem_keys_ofList, List.map_flatMap, List.mem_flatMap]
  rfl

/-- If a module has a symbol, there is a last one that has it. -/
theorem exists_lastWith (hm : m ∈ modules) (hsymbol : symbol ∈ m.nodes.keys) :
    ∃ n, LastWith modules symbol n := by
  rcases OrderedMap.mem_keys_iff.1 (mem_keys_ofModules_iff.2 ⟨m, hm, hsymbol⟩) with ⟨node, hnode⟩
  rcases get?_ofModules_eq_some_iff.1 hnode with ⟨n, hlast, _⟩
  exact ⟨n, hlast⟩

theorem LastWith.mem (h : LastWith modules symbol m) : m ∈ modules := by
  rcases h with ⟨before, after, rfl, _⟩
  exact List.mem_append_right before List.mem_cons_self

/-- The module at the end is the last one for each symbol that it has. -/
theorem lastWith_append_singleton (front : List ModuleCalls) (hsymbol : symbol ∈ m.nodes.keys) :
    LastWith (front ++ [m]) symbol m :=
  ⟨front, [], rfl, hsymbol, fun _ hn => absurd hn List.not_mem_nil⟩

/-- Whether a symbol is annotated is decided by the last module that has it. -/
theorem LastWith.mem_annotated_iff (h : LastWith modules symbol m) :
    symbol ∈ (ofModules modules).toSymbolGraph.annotated ↔ m.IsDynamic symbol := by
  rcases h with ⟨before, after, hmodules, hsymbol, hafter⟩
  rcases OrderedMap.mem_keys_iff.1 hsymbol with ⟨node, hnode⟩
  have hstands : (ofModules modules).nodes.get? symbol = some node :=
    get?_ofModules_eq_some_iff.2 ⟨m, ⟨before, after, hmodules, hsymbol, hafter⟩, hnode⟩
  have hannotated : symbol ∈ (ofModules modules).toSymbolGraph.annotated ↔
      ∃ node, (ofModules modules).nodes.get? symbol = some node ∧ node.dynamic = true := by
    simp only [toSymbolGraph, OrderedMap.keys, OrderedMap.filter, List.mem_map, List.mem_filter,
      Prod.exists, exists_and_right, exists_eq_right, OrderedMap.get?_eq_some_iff]
  -- The symbol that stands is that of the module, so both sides ask whether it is dynamic.
  unfold Script.ModuleCalls.IsDynamic
  rw [hannotated, hstands, hnode]

/-- A symbol is annotated if it is dynamic in the last module that has it. -/
theorem mem_annotated_ofModules_iff :
    symbol ∈ (ofModules modules).toSymbolGraph.annotated ↔
      ∃ m, LastWith modules symbol m ∧ m.IsDynamic symbol := by
  constructor
  · intro h
    have hkey : symbol ∈ (ofModules modules).nodes.keys := by
      rcases List.mem_map.1 h with ⟨e, he, rfl⟩
      exact List.mem_map.2 ⟨e, (List.mem_filter.1 he).1, rfl⟩
    rcases mem_keys_ofModules_iff.1 hkey with ⟨m, hm, hsymbol⟩
    rcases exists_lastWith hm hsymbol with ⟨n, hlast⟩
    exact ⟨n, hlast, hlast.mem_annotated_iff.1 h⟩
  · rintro ⟨m, hlast, hdynamic⟩
    exact hlast.mem_annotated_iff.2 hdynamic

/-! ### The order of the files -/

/-- The calls of modules do not depend on their order. -/
theorem perm_edges_ofModules (h : modules.Perm modules') :
    (ofModules modules).edges.Perm (ofModules modules').edges := by
  have hkeys : ∀ symbol, (ofModules modules).nodes.contains symbol =
      (ofModules modules').nodes.contains symbol := by
    intro symbol
    rw [Bool.eq_iff_iff, OrderedMap.contains_iff_mem_keys, OrderedMap.contains_iff_mem_keys,
      mem_keys_ofModules_iff, mem_keys_ofModules_iff]
    simp only [h.mem_iff]
  have hcalls := (h.flatMap_right ModuleCalls.calls).filter fun call =>
    (ofModules modules').nodes.contains call.1 && (ofModules modules').nodes.contains call.2
  have hsame : (ofModules modules).edges = (modules.flatMap ModuleCalls.calls).filter
      fun call => (ofModules modules').nodes.contains call.1 &&
        (ofModules modules').nodes.contains call.2 := by
    simp only [← hkeys]
    rfl
  rw [hsame]
  exact hcalls

/-- The modules of the same packages and files are the same, in another order. -/
theorem Rearranged.perm_modulesOf (h : Rearranged packages packages') :
    (modulesOf files packages).Perm (modulesOf files packages') := by
  rcases h with ⟨moved, hmoved, hpaths⟩
  refine (hmoved.flatMap_right _).trans ?_
  clear hmoved
  induction hpaths with
  | nil => exact .refl _
  | @cons p q ps qs hpackage _ ih =>
      rcases p with ⟨id, paths⟩
      rcases q with ⟨id', paths'⟩
      rcases hpackage with ⟨rfl, hsame⟩
      rw [List.flatMap_cons, modulesOf, List.flatMap_cons]
      exact (hsame.filterMap (ofFile? files id)).append ih

/-- Any module can be made the last one. -/
theorem exists_rearranged_last (hm : m ∈ modulesOf files packages) :
    ∃ packages' front, Rearranged packages packages' ∧
      modulesOf files packages' = front ++ [m] := by
  rcases List.mem_flatMap.1 hm with ⟨⟨id, paths⟩, hpackage, hfile⟩
  rcases List.mem_filterMap.1 hfile with ⟨path, hpath, hread⟩
  rcases List.append_of_mem hpackage with ⟨before, after, rfl⟩
  rcases List.append_of_mem hpath with ⟨earlier, later, rfl⟩
  -- The package goes to the end of the packages, and the file to the end of its package.
  refine ⟨before ++ after ++ [(id, earlier ++ later ++ [path])],
    modulesOf files (before ++ after) ++ (earlier ++ later).filterMap (ofFile? files id),
    ⟨before ++ after ++ [(id, earlier ++ path :: later)], ?_, ?_⟩, ?_⟩
  · exact List.perm_middle.trans (List.perm_append_singleton _ _).symm
  · refine List.rel_append (List.forall₂_same.2 fun p _ => ⟨rfl, .refl _⟩) ?_
    refine .cons ⟨rfl, ?_⟩ .nil
    exact List.perm_middle.trans (List.perm_append_singleton _ _).symm
  · simp only [modulesOf, List.flatMap_append, List.flatMap_singleton, List.filterMap_append,
      List.filterMap_cons, hread, List.filterMap_nil, List.append_assoc]

theorem Agree.perm (h : Agree modules) (hperm : modules.Perm modules') : Agree modules' := by
  intro m hm n hn
  exact h m (hperm.mem_iff.2 hm) n (hperm.mem_iff.2 hn)

/-- Where modules agree, a symbol is annotated if it is dynamic in any of them. -/
theorem Agree.mem_annotated_iff (h : Agree modules) :
    symbol ∈ (ofModules modules).toSymbolGraph.annotated ↔
      ∃ m ∈ modules, m.IsDynamic symbol := by
  constructor
  · intro hannotated
    rcases mem_annotated_ofModules_iff.1 hannotated with ⟨m, hlast, hdynamic⟩
    exact ⟨m, hlast.mem, hdynamic⟩
  · rintro ⟨m, hm, hdynamic⟩
    rcases exists_lastWith hm hdynamic.mem_keys with ⟨n, hlast⟩
    have hsymbol : symbol ∈ n.nodes.keys := by
      rcases hlast with ⟨_, _, _, hsymbol, _⟩
      exact hsymbol
    exact hlast.mem_annotated_iff.2 (h m hm n hlast.mem symbol hdynamic hsymbol)

/-- If the order of the files is of no account, they agree on the symbols that they share. -/
theorem agree_of_rearranged (h : ∀ packages', Rearranged packages packages' → ∀ symbol,
    symbol ∈ (ofFiles files packages').toSymbolGraph.annotated ↔
      symbol ∈ (ofFiles files packages).toSymbolGraph.annotated) :
    Agree (modulesOf files packages) := by
  have hdecides : ∀ m ∈ modulesOf files packages, ∀ symbol ∈ m.nodes.keys,
      (symbol ∈ (ofFiles files packages).toSymbolGraph.annotated ↔ m.IsDynamic symbol) := by
    intro m hm symbol hsymbol
    rcases exists_rearranged_last hm with ⟨packages', front, hmoved, hend⟩
    rw [← h packages' hmoved symbol]
    change symbol ∈ (ofModules (modulesOf files packages')).toSymbolGraph.annotated ↔ _
    rw [hend]
    exact (lastWith_append_singleton front hsymbol).mem_annotated_iff
  intro m hm n hn symbol hdynamic hsymbol
  have hannotated := (hdecides m hm symbol hdynamic.mem_keys).2 hdynamic
  exact (hdecides n hn symbol hsymbol).1 hannotated

/-- A symbol of the files of packages is annotated if it is dynamic in the last file that has it. In
    every order of the packages and of their files there are the same symbols, those of all files,
    and the same calls. The annotated symbols are the same in every order if and only if the files
    agree on the symbols that they share, and this is also when in every order they are the symbols
    that are dynamic in some file. -/
theorem ofFiles_annotates_last (files : FileSystem) (packages : List (String × List String)) :
    let modules := modulesOf files packages
    let annotated := fun packages => (ofFiles files packages).toSymbolGraph.annotated
    (∀ symbol, symbol ∈ annotated packages ↔
      ∃ m, LastWith modules symbol m ∧ m.IsDynamic symbol) ∧
    (∀ packages', Rearranged packages packages' →
      (∀ symbol, symbol ∈ (ofFiles files packages').nodes.keys ↔
        ∃ m ∈ modules, symbol ∈ m.nodes.keys) ∧
      (ofFiles files packages').edges.Perm (ofFiles files packages).edges) ∧
    (Agree modules ↔ ∀ packages', Rearranged packages packages' → ∀ symbol,
      symbol ∈ annotated packages' ↔ symbol ∈ annotated packages) ∧
    (Agree modules ↔ ∀ packages', Rearranged packages packages' → ∀ symbol,
      symbol ∈ annotated packages' ↔ ∃ m ∈ modules, m.IsDynamic symbol) := by
  intro modules annotated
  have hself : Rearranged packages packages :=
    ⟨packages, .refl _, List.forall₂_same.2 fun _ _ => ⟨rfl, .refl _⟩⟩
  have hunion : Agree modules → ∀ packages', Rearranged packages packages' → ∀ symbol,
      (symbol ∈ annotated packages' ↔ ∃ m ∈ modules, m.IsDynamic symbol) := by
    intro hagree packages' hmoved symbol
    have hperm : modules.Perm (modulesOf files packages') := hmoved.perm_modulesOf
    have hannotated : symbol ∈ annotated packages' ↔
        ∃ m ∈ modulesOf files packages', m.IsDynamic symbol := (hagree.perm hperm).mem_annotated_iff
    simp only [← hperm.mem_iff] at hannotated
    exact hannotated
  refine ⟨fun symbol => mem_annotated_ofModules_iff, ?_, ⟨?_, agree_of_rearranged⟩, ⟨hunion, ?_⟩⟩
  · intro packages' hmoved
    have hperm : modules.Perm (modulesOf files packages') := hmoved.perm_modulesOf
    refine ⟨fun symbol => ?_, perm_edges_ofModules hperm.symm⟩
    have hkeys : symbol ∈ (ofFiles files packages').nodes.keys ↔
        ∃ m ∈ modulesOf files packages', symbol ∈ m.nodes.keys := mem_keys_ofModules_iff
    simp only [← hperm.mem_iff] at hkeys
    exact hkeys
  · intro hagree packages' hmoved symbol
    exact (hunion hagree packages' hmoved symbol).trans (hunion hagree packages hself symbol).symm
  · intro h
    refine agree_of_rearranged fun packages' hmoved symbol => ?_
    exact (h packages' hmoved symbol).trans (h packages hself symbol).symm

/-- A file with a lookup, and a file with nothing in it. -/
def lookupFiles : FileSystem :=
  ⟨.directory [("look.py", .file "getattr(x, y)\n".toUTF8.toList), ("rest.py", .file [])], "/"⟩

/-- The body of the module is dynamic in one of its files, and is annotated only if that is the last
    one. -/
theorem ofFiles_forgets_dynamic :
    (∃ m ∈ modulesOf lookupFiles [("m", ["look.py", "rest.py"])], m.IsDynamic "m:<module>") ∧
      (ofFiles lookupFiles [("m", ["look.py", "rest.py"])]).toSymbolGraph.annotated = [] ∧
      (ofFiles lookupFiles [("m", ["rest.py", "look.py"])]).toSymbolGraph.annotated =
        ["m:<module>"] := by
  refine ⟨?_, by decide +kernel, by decide +kernel⟩
  have hfound : (modulesOf lookupFiles [("m", ["look.py", "rest.py"])]).any (fun m =>
      (m.nodes.get? "m:<module>").any fun node => node.dynamic) = true := by decide +kernel
  rcases List.any_eq_true.1 hfound with ⟨m, hm, hnode⟩
  rcases Option.any_eq_true _ _ |>.1 hnode with ⟨node, hget, hdynamic⟩
  exact ⟨m, hm, node, hget, hdynamic⟩

end CallGraph

end PackageAlgebra
