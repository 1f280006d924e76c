import PackageAlgebra.Proofs.Load.Caches

/-!
# What Tests and Typing Add

How the universes of one source tree differ.

Beside its ordinary modules a source tree can be asked for two things: for its test modules, and
for the imports that are made only while types are checked. Each answer is a universe that was
built by a run of its own. In one run another module may be the first to import a package from
outside the tree than in the next, and other modules may hide packages of the standard library.

The nodes of modules do not depend on any of that. Their fields are read off files, and an import
is resolved among all modules of the tree, those that do not exist under the configuration
included. So an import that leads to an ordinary module leads there always. Without tests the
imports of test modules are missing and nothing takes their place, since an import that leads
into the tree never leads out of it.

Typing is another matter, for an import that is made only while types are checked may well lead
from one ordinary module to another. Such edges come with typing; none is lost or led elsewhere.

## Main definitions

* `Universe.Shares`: A node is in two universes.
* `SourceScan.Ordinary`, `SourceScan.isTestModule`: The modules of a tree.
* `SourceScan.KeepsEdge`: What becomes of an edge between ordinary modules.

## Theorems

* `SourceScan.keys_imports_without_tests`: Imports without tests are those with tests, apart from
  test modules.
* `SourceScan.mem_keys_imports_of_typing`: Typing only adds imports.
* `SourceScan.keepsEdge_linkedNode`: Edges between ordinary modules are kept.
* `allNodes_sourceLoader`: A loader that is not cancelled has the universe of the scan.
* `allNodes_sourceLoader_widened`: What asking for tests or typing changes.
* `allNodes_sourceLoader_typing_links`: An edge that comes with typing.
-/

namespace PackageAlgebra

open Script (Import)

variable {tree : SourceTree} {scan : SourceScan} {config other : LoadConfig} {v w : Variant}
  {m : SourceModule} {ref : Import} {name id : String} {s : SourceState} {p q : Node NodeRef}

/-- A node is in two universes with the same fields, imports aside. -/
structure Universe.Shares (u w : Universe) (name : String) (p q : Node NodeRef) : Prop where
  -- The node that one universe has.
  here : u.get? name = some p
  -- The node that the other one has.
  there : w.get? name = some q
  -- Both say the same of the package.
  fields : p.bare = q.bare

namespace SourceScan

/-- Whether a name is that of a module of the tree that is a test package. -/
def isTestModule (scan : SourceScan) (name : String) : Bool :=
  scan.modules.contains name && isTestPackage name

/-- A name is that of a module of the tree that is no test package. -/
def Ordinary (scan : SourceScan) (name : String) : Prop :=
  name ∈ scan.modules.keys ∧ isTestPackage name = false

/-! ### Modules -/

/-- An ordinary module exists under every configuration. -/
theorem Ordinary.included (h : scan.Ordinary name) (config : LoadConfig) :
    scan.Included config name :=
  ⟨h.1, Or.inr h.2⟩

/-- Whether a module exists depends on the tests alone. -/
theorem included_congr (h : config.tests = other.tests) :
    scan.Included config name ↔ scan.Included other name := by
  unfold Included
  rw [h]

/-- A module that exists under two configurations is in both universes, as it is read from its
    file. -/
theorem shares_ofScan {stdNames : List String} (hm : scan.modules.get? name = some m)
    (h : scan.Included config name) (hother : scan.Included other name) :
    Universe.Shares (Universe.ofScan stdNames scan config.sourceVariant)
      (Universe.ofScan stdNames scan other.sourceVariant) name
      (scan.linkedNode config.sourceVariant name m)
      (scan.linkedNode other.sourceVariant name m) where
  here := get?_ofScan_eq_some_iff.2 (.inl ⟨includes_sourceVariant_iff.2 h, m, hm, rfl⟩)
  there := get?_ofScan_eq_some_iff.2 (.inl ⟨includes_sourceVariant_iff.2 hother, m, hm, rfl⟩)
  fields := (fields_linkedNode scan config.sourceVariant name m).trans
    (fields_linkedNode scan other.sourceVariant name m).symm

/-- A module imports the packages to which its imports lead, in the order in which they first
    do. -/
theorem keys_imports_linkedNode (scan : SourceScan) (v : Variant) (name : String)
    (m : SourceModule) :
    (scan.linkedNode v name m).imports.keys =
      (scan.importedIds v name m).foldl OrderedMap.noting [] := by
  unfold linkedNode
  rw [OrderedMap.keys_ofList, List.map_map]
  exact congrArg (List.foldl OrderedMap.noting []) (List.map_id _)

theorem mem_keys_imports_linkedNode_iff : id ∈ (scan.linkedNode v name m).imports.keys ↔
    id ∈ scan.importedIds v name m := by
  unfold linkedNode
  rw [OrderedMap.mem_keys_ofList, List.map_map]
  exact Iff.of_eq (congrArg (id ∈ ·) (List.map_id _))

/-! ### Tests -/

theorem Resolves.mem_keys (h : scan.Resolves ref id) : id ∈ scan.modules.keys := by
  rcases h with ⟨_, _, _, _, _, hlongest⟩
  exact hlongest.isModule

/-- Without tests, an import leads where it leads with tests, unless that is a test module. -/
theorem imported?_without_tests (hv : v.tests = false) (hw : w.tests = true)
    (scan : SourceScan) (name : String) (ref : Import) :
    scan.imported? v name ref =
      (scan.imported? w name ref).filter fun id => !scan.isTestModule id := by
  unfold imported? includes isTestModule
  cases htarget : scan.target? ref with
  | some target =>
      have hmodule : scan.modules.contains target = true :=
        OrderedMap.contains_iff_mem_keys.2 (target?_eq_some_iff.1 htarget).mem_keys
      by_cases hself : target = name
      · simp only [hself, ne_eq, not_true, decide_false, Bool.and_false, Bool.false_eq_true,
          if_false, Option.filter_none]
      · by_cases htest : isTestPackage target = true
        · simp only [hv, hw, hmodule, hself, htest, Bool.not_true, Bool.or_false, Bool.and_false,
            Bool.false_and, Bool.false_eq_true, if_false, Bool.true_and, ne_eq,
            not_false_eq_true, decide_true, if_true, Option.filter_some]
        · rw [Bool.not_eq_true] at htest
          simp only [hv, hw, hmodule, hself, htest, Bool.not_false, Bool.or_true, Bool.and_true,
            ne_eq, not_false_eq_true, decide_true, if_true, Bool.and_false, Option.filter_some]
  | none =>
      -- A package outside the tree has the name of no module.
      cases hid : outside? ref with
      | none => rfl
      | some id =>
          rcases outside?_eq_some_iff.1 hid with ⟨last, hlast, rfl, -⟩
          have hmodule := (target?_eq_none_iff.1 htarget).not_mem_keys hlast
          rw [← OrderedMap.contains_iff_mem_keys, Bool.not_eq_true] at hmodule
          simp only [hmodule, Bool.false_and, Bool.not_false, if_true, Option.filter_some]

/-- Without tests, a module imports what it imports with tests, apart from test modules. -/
theorem keys_imports_without_tests (hv : v.tests = false) (hw : w.tests = true)
    (htags : v.tags = w.tags) (scan : SourceScan) (name : String) (m : SourceModule) :
    (scan.linkedNode v name m).imports.keys =
      (scan.linkedNode w name m).imports.keys.filter fun id => !scan.isTestModule id := by
  have hids : scan.importedIds v name m =
      (scan.importedIds w name m).filter fun id => !scan.isTestModule id := by
    unfold importedIds activeImports
    rw [List.filter_filterMap, htags]
    exact congrArg (List.filterMap · _)
      (funext fun ref => imported?_without_tests hv hw scan name ref)
  rw [keys_imports_linkedNode, keys_imports_linkedNode, hids]
  exact OrderedMap.foldl_noting_filter _ _ []

/-! ### Typing -/

/-- An import leads to an ordinary module whatever is asked for. -/
theorem Ordinary.leadsTo_iff (h : scan.Ordinary id) :
    scan.LeadsTo config name ref id ↔ scan.Resolves ref id ∧ id ≠ name := by
  unfold LeadsTo
  constructor
  · rintro (⟨hresolves, -, hother⟩ | ⟨houtside, last, hlast, rfl, -⟩)
    · exact ⟨hresolves, hother⟩
    · exact absurd h.1 (houtside.not_mem_keys hlast)
  · rintro ⟨hresolves, hother⟩
    exact Or.inl ⟨hresolves, h.included config, hother⟩

/-- Which ordinary modules a module imports depends on the typing alone. -/
theorem Ordinary.mem_keys_imports_iff (h : scan.Ordinary id) :
    id ∈ (scan.linkedNode config.sourceVariant name m).imports.keys ↔
      ∃ ref ∈ m.imports.imports, (ref.typeChecking = true → typingTag ∈ config.tagSet) ∧
        scan.Resolves ref id ∧ id ≠ name := by
  rw [mem_keys_imports_linkedNode_iff, mem_importedIds_iff]
  simp only [h.leadsTo_iff]

/-- With typing, a module imports what it imports without. -/
theorem mem_keys_imports_of_typing (htests : config.tests = other.tests)
    (htyping : typingTag ∉ config.tagSet)
    (hid : id ∈ (scan.linkedNode config.sourceVariant name m).imports.keys) :
    id ∈ (scan.linkedNode other.sourceVariant name m).imports.keys := by
  rw [mem_keys_imports_linkedNode_iff, mem_importedIds_iff] at hid ⊢
  rcases hid with ⟨ref, href, hactive, hleads⟩
  refine ⟨ref, href, fun hchecking => absurd (hactive hchecking) htyping, ?_⟩
  unfold LeadsTo at hleads ⊢
  rwa [← included_congr htests]

/-- What becomes of an edge between ordinary modules, from a module of which one configuration has
    the first node and another one the second. -/
structure KeepsEdge (config other : LoadConfig) (scan : SourceScan) (m : SourceModule)
    (id : String) (p q : Node NodeRef) : Prop where
  -- Tests do not matter.
  same : (typingTag ∈ config.tagSet ↔ typingTag ∈ other.tagSet) →
    (id ∈ p.imports.keys ↔ id ∈ q.imports.keys)
  -- Typing takes no edge away.
  kept : (typingTag ∈ config.tagSet → typingTag ∈ other.tagSet) → id ∈ p.imports.keys →
    id ∈ q.imports.keys
  -- It adds an edge only for an import that is made while types are checked.
  added : id ∉ p.imports.keys → id ∈ q.imports.keys →
    typingTag ∉ config.tagSet ∧ typingTag ∈ other.tagSet ∧
      ∃ ref ∈ m.imports.imports, ref.typeChecking = true ∧ scan.Resolves ref id

/-- Edges between ordinary modules are kept. -/
theorem keepsEdge_linkedNode (h : scan.Ordinary id) : KeepsEdge config other scan m id
    (scan.linkedNode config.sourceVariant name m) (scan.linkedNode other.sourceVariant name m) := by
  constructor
  · intro htyping
    simp only [h.mem_keys_imports_iff, htyping]
  · intro htyping hedge
    rw [h.mem_keys_imports_iff] at hedge ⊢
    rcases hedge with ⟨ref, href, hactive, hleads⟩
    exact ⟨ref, href, fun hchecking => htyping (hactive hchecking), hleads⟩
  · intro hnot hedge
    rw [h.mem_keys_imports_iff] at hnot hedge
    rcases hedge with ⟨ref, href, hactive, hleads⟩
    -- Were the import made in any case, there would have been the edge.
    have hchecking : ref.typeChecking = true ∧ typingTag ∉ config.tagSet := by
      rw [← Classical.not_imp]
      exact fun hother => hnot ⟨ref, href, hother, hleads⟩
    exact ⟨hchecking.2, hactive hchecking.1, ref, href, hchecking.1, hleads.1⟩

end SourceScan

/-- A loader that is not cancelled has the universe of the scan. -/
theorem allNodes_sourceLoader (h : s.FoundIn tree) (hscan : tree.scan? = some scan)
    (hquiet : ∀ i, config.cancelled i = false) :
    (sourceLoader tree).allNodes config s =
      (.ok (Universe.ofScan tree.stdNames scan config.sourceVariant),
        s.requiring tree scan config.sourceVariant) := by
  refine universe?_of_scan?_some h hscan fun _ => ?_
  unfold SourceTree.interrupts
  exact List.any_eq_false.2 fun i _ => by rw [hquiet]; exact Bool.false_ne_true

/-- The universes that a source tree has under two configurations, whatever was asked before. An
    ordinary module is in both if tests are wanted in the second alone, with the same fields; what
    it imports without tests is what it imports with them, apart from test modules. With typing a
    module that exists has the same fields, and imports what it imports without. Between ordinary
    modules no edge depends on the tests; with typing none is taken away, and those that are
    added are of imports for type checking. -/
theorem allNodes_sourceLoader_widened (hscan : tree.scan? = some scan)
    (history later : List Question) (config other : LoadConfig)
    (hconfig : ∀ i, config.cancelled i = false) (hother : ∀ i, other.cancelled i = false) :
    let l := sourceLoader tree
    ∃ u w, (l.allNodes config (l.after history {})).1 = .ok u ∧
      (l.allNodes other (l.after later {})).1 = .ok w ∧
      (config.tests = false → other.tests = true →
        (typingTag ∈ config.tagSet ↔ typingTag ∈ other.tagSet) →
        ∀ name, scan.Ordinary name → ∃ p q, Universe.Shares u w name p q ∧
          p.imports.keys = q.imports.keys.filter fun id => !scan.isTestModule id) ∧
      (config.tests = other.tests → typingTag ∉ config.tagSet →
        ∀ name, scan.Included config name → ∃ p q, Universe.Shares u w name p q ∧
          ∀ id ∈ p.imports.keys, id ∈ q.imports.keys) ∧
      ∀ name m, scan.modules.get? name = some m → scan.Ordinary name →
        ∃ p q, Universe.Shares u w name p q ∧
          ∀ id, scan.Ordinary id → scan.KeepsEdge config other m id p q := by
  intro l
  have hfirst := allNodes_sourceLoader (SourceState.foundIn_empty.after history) hscan hconfig
  have hsecond := allNodes_sourceLoader (SourceState.foundIn_empty.after later) hscan hother
  refine ⟨_, _, congrArg Prod.fst hfirst, congrArg Prod.fst hsecond,
    fun hnarrow hwide htyping name hname => ?_, fun htests htyping name hincluded => ?_,
    fun name m hm hname => ?_⟩
  · rcases OrderedMap.mem_keys_iff.1 hname.1 with ⟨m, hm⟩
    refine ⟨_, _, SourceScan.shares_ofScan hm (hname.included config) (hname.included other), ?_⟩
    exact SourceScan.keys_imports_without_tests hnarrow hwide
      (tags_sourceVariant_congr htyping) scan name m
  · rcases OrderedMap.mem_keys_iff.1 hincluded.1 with ⟨m, hm⟩
    refine ⟨_, _, SourceScan.shares_ofScan hm hincluded
      ((SourceScan.included_congr htests).1 hincluded), fun id hid => ?_⟩
    exact SourceScan.mem_keys_imports_of_typing htests htyping hid
  · refine ⟨_, _, SourceScan.shares_ofScan hm (hname.included config) (hname.included other),
      fun id hid => ?_⟩
    exact SourceScan.keepsEdge_linkedNode hid

/-- The source of a shop that imports a till and its own tests, and a cart while types are
    checked. -/
def shopSource : List UInt8 :=
  "import till, shop_test\nif TYPE_CHECKING:\n    import cart\n".toUTF8.toList

/-- The tree of the shop. -/
def shopTree : SourceTree where
  files := ⟨.directory [("cart.py", .file []), ("shop.py", .file shopSource),
    ("shop_test.py", .file []), ("till.py", .file [])], "/"⟩
  root := "/"
  stdNames := ["os"]

/-- The files of the tree, in the order of a scan. -/
theorem filesBelow_shopTree : shopTree.files.root.filesBelow =
    [(["cart.py"], []), (["shop.py"], shopSource), (["shop_test.py"], []), (["till.py"], [])] := by
  unfold FileTree.filesBelow gather
  rw [List.mergeSort_of_pairwise]
  · simp [FileTree.entries, shopTree, FileTree.foundIn]
  · simp [FileTree.entries, shopTree, FileTree.foundIn]

/-- What a scan of the tree finds. -/
def shopTreeScan : SourceScan := .ofFiles (SourceFile.scan "/" shopTree.files.root)

theorem scan?_shopTree : shopTree.scan? = some shopTreeScan := rfl

theorem keys_shopTreeScan :
    shopTreeScan.modules.keys = ["cart", "shop", "shop_test", "till"] := by
  unfold shopTreeScan SourceFile.scan
  rw [filesBelow_shopTree]
  decide +kernel

theorem ordinary_shop : shopTreeScan.Ordinary "shop" :=
  ⟨by rw [keys_shopTreeScan]; decide, by decide⟩

theorem ordinary_cart : shopTreeScan.Ordinary "cart" :=
  ⟨by rw [keys_shopTreeScan]; decide, by decide⟩

/-- What the shop imports without tests is what it imports with them, apart from its own tests. -/
theorem allNodes_sourceLoader_widened_shop :
    let l := sourceLoader shopTree
    ∃ u w p q, (l.allNodes {} {}).1 = .ok u ∧ (l.allNodes { tests := true } {}).1 = .ok w ∧
      Universe.Shares u w "shop" p q ∧
      p.imports.keys = q.imports.keys.filter fun id => !decide (id = "shop_test") := by
  intro l
  have htest : ∀ id, shopTreeScan.isTestModule id = decide (id = "shop_test") := by
    have htests : ∀ id ∈ ["cart", "shop", "shop_test", "till"],
        isTestPackage id = true → id = "shop_test" := by decide +kernel
    intro id
    unfold SourceScan.isTestModule
    rw [Bool.eq_iff_iff, Bool.and_eq_true, OrderedMap.contains_iff_mem_keys, keys_shopTreeScan,
      decide_eq_true_eq]
    constructor
    · exact fun h => htests id h.1 h.2
    · rintro rfl
      decide +kernel
  rcases allNodes_sourceLoader_widened scan?_shopTree [] [] {} { tests := true } (fun _ => rfl)
    (fun _ => rfl) with ⟨u, w, hu, hw, htests, -⟩
  rcases htests rfl rfl Iff.rfl "shop" ordinary_shop with ⟨p, q, hshares, himports⟩
  simp only [htest] at himports
  exact ⟨u, w, p, q, hu, hw, hshares, himports⟩

/-- With typing there is an edge between ordinary modules that is not there without. -/
theorem allNodes_sourceLoader_typing_links :
    let l := sourceLoader shopTree
    ∃ u w p q, shopTree.scan? = some shopTreeScan ∧
      shopTreeScan.Ordinary "shop" ∧ shopTreeScan.Ordinary "cart" ∧
      (l.allNodes {} {}).1 = .ok u ∧ (l.allNodes { tags := ["typing"] } {}).1 = .ok w ∧
      u.get? "shop" = some p ∧ w.get? "shop" = some q ∧
      "cart" ∉ p.imports.keys ∧ "cart" ∈ q.imports.keys := by
  intro l
  let typing : LoadConfig := { tags := ["typing"] }
  have huniverse : ∀ config : LoadConfig, (∀ i, config.cancelled i = false) →
      (l.allNodes config {}).1 =
        .ok (Universe.ofScan shopTree.stdNames shopTreeScan config.sourceVariant) :=
    fun config hquiet =>
      congrArg Prod.fst (allNodes_sourceLoader SourceState.foundIn_empty scan?_shopTree hquiet)
  rcases OrderedMap.mem_keys_iff.1 ordinary_shop.1 with ⟨m, hm⟩
  have hids : (shopTreeScan.modules.get? "shop").map (fun m =>
      (shopTreeScan.importedIds ({} : LoadConfig).sourceVariant "shop" m,
        shopTreeScan.importedIds typing.sourceVariant "shop" m)) =
      some (["till"], ["till", "cart"]) := by
    unfold shopTreeScan SourceFile.scan
    rw [filesBelow_shopTree]
    decide +kernel
  rw [hm, Option.map_some, Option.some.injEq, Prod.mk.injEq] at hids
  have hhere := ordinary_shop.included {}
  have hthere := ordinary_shop.included typing
  refine ⟨_, _, shopTreeScan.linkedNode _ "shop" m, shopTreeScan.linkedNode _ "shop" m,
    scan?_shopTree, ordinary_shop, ordinary_cart, huniverse {} fun _ => rfl,
    huniverse typing fun _ => rfl, (SourceScan.shares_ofScan hm hhere hthere).here,
    (SourceScan.shares_ofScan hm hhere hthere).there, ?_, ?_⟩
  · rw [SourceScan.mem_keys_imports_linkedNode_iff, hids.1]
    decide
  · rw [SourceScan.mem_keys_imports_linkedNode_iff, hids.2]
    decide

end PackageAlgebra
