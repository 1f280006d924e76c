import PackageAlgebra.Proofs.Script.Visits
import PackageAlgebra.Proofs.Text.Cuts
import PackageAlgebra.Script.Imports

/-!
# References of a Module

Which imports a visit finds in a module, and in which order.

A visit that looks for imports takes along one thing only, whether what it meets counts only while
types are checked. The body of a condition that says so has it from then on, however deep a
statement is in it, and nothing takes it back; the other side of the condition has it only if the
condition is itself in such a body. So the mark of an import is that of the places that lead to its
statement, and there is one import for each name of each statement, in the order of the visit.

Only one kind of name gives none: all that there is in a package, where going up from the module has
left no package to look in.

## Main definitions

* `Place.checksTypes`: A place is in the body of a condition on the checking of types.
* `referencesOf`: The candidates of the names of an import statement.
* `asksHere`: A node asks whether the module is the main one.

## Theorems

* `candidatesOf_eq_nil_iff`: The names that give no import.
* `importsOf_eq`: The imports of statements.
* `asksForMain_iff`: Whether statements ask for the main module.
* `readImports_lists_references`: What a module imports, and whether it is meant to be started.
-/

namespace PackageAlgebra.Script

variable {module : String} {isPackage : Bool} {statements : List Tree} {test : Tree}

/-! ### Imports -/

/-- A place is in the body of a condition that holds only while types are checked. -/
def Place.checksTypes : Place → Bool
  | underTest test => isTypeChecking test
  | _ => false

/-- The candidates of the names of an import statement. Everything in a package has none where
    there is no name of a package. -/
def referencesOf (module : String) (isPackage : Bool) : Tree → List (List String)
  | .importModules names => names.map fun n => [n.name]
  | .importFrom level source names =>
    let base := resolveRelative module isPackage level source
    (names.filter fun n => n.name ≠ "*" || base ≠ "").map fun n => candidatesOf base n.name
  | _ => []

theorem isTypeChecking_iff : isTypeChecking test = true ↔
    test = .name "TYPE_CHECKING" ∨ ∃ owner, test = .member owner "TYPE_CHECKING" := by
  cases test <;> simp [isTypeChecking]

theorem any_checksTypes_iff {path : List Place} : path.any Place.checksTypes = true ↔
    ∃ test, .underTest test ∈ path ∧
      (test = .name "TYPE_CHECKING" ∨ ∃ owner, test = .member owner "TYPE_CHECKING") := by
  simp only [List.any_eq_true, ← isTypeChecking_iff]
  constructor
  · rintro ⟨place, hplace, hchecks⟩
    cases place with
    | underTest test => exact ⟨test, hplace, hchecks⟩
    | _ => exact absurd hchecks Bool.false_ne_true
  · rintro ⟨test, htest, hchecks⟩
    exact ⟨_, htest, hchecks⟩

/-- A name gives no candidates if it stands for everything in a package that has no name. -/
theorem candidatesOf_eq_nil_iff {base name : String} :
    candidatesOf base name = [] ↔ name = "*" ∧ base = "" := by
  unfold candidatesOf
  by_cases hname : name = "*" <;> by_cases hbase : base = "" <;> simp [hname, hbase]

/-- The imports of a statement are those of its names. -/
theorem statementImports_eq (typeChecking : Bool) (t : Tree) :
    statementImports module isPackage typeChecking t =
      (referencesOf module isPackage t).map (Import.mk · typeChecking) := by
  cases t with
  | importModules names => simp only [statementImports, referencesOf, List.map_map]; rfl
  | importFrom level source names =>
      rw [statementImports, referencesOf, List.map_map, ← List.filterMap_eq_map,
        List.filterMap_filter]
      refine List.filterMap_congr fun n _ => ?_
      generalize resolveRelative module isPackage level source = base
      -- A name is left out if it has no candidates.
      by_cases hnone : candidatesOf base n.name = []
      · have hskip : (decide (n.name ≠ "*") || decide (base ≠ "")) = false := by
          simp [candidatesOf_eq_nil_iff.1 hnone]
        rw [hnone, hskip]
        rfl
      · have hkeep : n.name ≠ "*" ∨ base ≠ "" := by
          rw [candidatesOf_eq_nil_iff, not_and_or] at hnone
          exact hnone
        simp [hkeep, hnone]
  | _ => rfl

theorem importsOf_eq_flatMap (typeChecking : Bool) (ts : List Tree) :
    importsOf module isPackage typeChecking ts =
      ts.flatMap (importsIn module isPackage typeChecking) := by
  induction ts with
  | nil => rfl
  | cons t rest ih => rw [importsOf, ih, List.flatMap_cons]

/-- First come the imports of the node, and then those of its parts. -/
theorem importsIn_eq_parts (typeChecking : Bool) (t : Tree) :
    importsIn module isPackage typeChecking t =
      statementImports module isPackage typeChecking t ++ t.parts.flatMap fun p =>
        importsIn module isPackage (typeChecking || p.1.checksTypes) p.2 := by
  cases t <;> simp [importsIn, statementImports, importsOf_eq_flatMap, Tree.parts, Tree.children,
    Tree.frame?, Place.checksTypes, List.flatMap_map]

/-- What has been taken along on a way is whether one of its places says so. -/
theorem foldl_checksTypes (path : List Place) (typeChecking : Bool) :
    path.foldl (fun b place => b || place.checksTypes) typeChecking =
      (typeChecking || path.any Place.checksTypes) := by
  induction path generalizing typeChecking with
  | nil => exact (Bool.or_false _).symm
  | cons place rest ih => rw [List.foldl_cons, ih, List.any_cons, Bool.or_assoc]

/-- The imports of statements are those of the import statements in them, marked by the places that
    lead there. -/
theorem importsOf_eq (statements : List Tree) :
    importsOf module isPackage false statements =
      (statements.flatMap Tree.visited).flatMap fun o =>
        (referencesOf module isPackage o.2).map (Import.mk · (o.1.any Place.checksTypes)) := by
  rw [importsOf_eq_flatMap, List.flatMap_assoc]
  refine List.flatMap_congr fun t _ => ?_
  rw [eq_flatMap_visited (fun typeChecking place => typeChecking || place.checksTypes) _
    (importsIn module isPackage) importsIn_eq_parts]
  simp only [foldl_checksTypes, Bool.false_or, statementImports_eq]

/-! ### The main module -/

/-- A node asks whether the module is the main one. -/
def asksHere : Tree → Bool
  | .branch test _ _ => isMainTest test
  | _ => false

theorem isMainTest_iff : isMainTest test = true ↔
    test = .compare (.name "__name__") [.text "__main__"] ∨
      test = .compare (.text "__main__") [.name "__name__"] := by
  have hmodule : ∀ t, isMainTest.isModuleName t = true ↔ t = .name "__name__" := by
    intro t
    cases t <;> simp [isMainTest.isModuleName]
  have hmain : ∀ t, isMainTest.isMainName t = true ↔ t = .text "__main__" := by
    intro t
    cases t <;> simp [isMainTest.isMainName]
  constructor
  · intro h
    cases test with
    | compare first others =>
        match others with
        | [other] =>
            rw [isMainTest, Bool.and_eq_true, Bool.or_eq_true, Bool.or_eq_true, hmodule, hmodule,
              hmain, hmain] at h
            -- One value is not both names, so there is one of each.
            rcases h with ⟨rfl | rfl, hmain | hmain⟩
            · cases hmain
            · exact .inl (hmain ▸ rfl)
            · exact .inr (hmain ▸ rfl)
            · cases hmain
        | [] => cases h
        | _ :: _ :: _ => cases h
    | _ => cases h
  · rintro (rfl | rfl) <;> rfl

theorem asksForMain_eq_any (ts : List Tree) : asksForMain ts = ts.any asksForMainIn := by
  induction ts with
  | nil => rfl
  | cons t rest ih => rw [asksForMain, ih, List.any_cons]

theorem asksForMainIn_eq_children (t : Tree) :
    asksForMainIn t = (asksHere t || t.children.any asksForMainIn) := by
  cases t <;> simp [asksForMainIn, asksHere, asksForMain_eq_any, Tree.children, Bool.or_assoc]

/-- A node holds a condition that asks for the main module if one of the nodes in it is one. -/
theorem asksForMainIn_iff (t : Tree) :
    asksForMainIn t = true ↔ ∃ o ∈ t.visited, asksHere o.2 = true := by
  induction t using Tree.induction_children with
  | h t ih =>
    rw [asksForMainIn_eq_children, Bool.or_eq_true, List.any_eq_true, Tree.visited_eq,
      List.exists_mem_cons_iff]
    refine or_congr Iff.rfl ?_
    simp only [List.mem_flatMap, List.mem_map, ← Tree.map_parts]
    constructor
    · rintro ⟨_, ⟨p, hp, rfl⟩, hasks⟩
      rcases (ih p.2 (Tree.mem_children_of_mem_parts hp)).1 hasks with ⟨o, ho, hhere⟩
      exact ⟨_, ⟨p, hp, o, ho, rfl⟩, hhere⟩
    · rintro ⟨_, ⟨p, hp, o, ho, rfl⟩, hhere⟩
      exact ⟨_, ⟨p, hp, rfl⟩, (ih p.2 (Tree.mem_children_of_mem_parts hp)).2 ⟨o, ho, hhere⟩⟩

/-- Statements ask for the main module if a condition in them does. -/
theorem asksForMain_iff (statements : List Tree) : asksForMain statements = true ↔
    ∃ o ∈ statements.flatMap Tree.visited, ∃ test body otherwise,
      o.2 = .branch test body otherwise ∧
        (test = .compare (.name "__name__") [.text "__main__"] ∨
          test = .compare (.text "__main__") [.name "__name__"]) := by
  have hhere : ∀ t, asksHere t = true ↔ ∃ test body otherwise,
      t = .branch test body otherwise ∧ isMainTest test = true := by
    intro t
    cases t <;> simp [asksHere]
  simp only [asksForMain_eq_any, List.any_eq_true, asksForMainIn_iff, hhere, isMainTest_iff,
    List.mem_flatMap]
  constructor
  · rintro ⟨t, ht, o, ho, hasks⟩
    exact ⟨o, ⟨t, ht, ho⟩, hasks⟩
  · rintro ⟨o, ⟨t, ht, ho⟩, hasks⟩
    exact ⟨t, ht, o, ho, hasks⟩

/-- The imports of a module are those of its import statements, wherever they are, in the order of
    a visit: one for each name, but for everything in a package without a name. An import is marked
    if its statement is in the body of a condition, however far up, that is the name or a member
    of the name under which types are checked. A module is meant to be started if its name ends as
    that of a main module does, or if somewhere in it a condition compares the name of the module
    with that of the main module. -/
theorem readImports_lists_references (module : String) (isPackage : Bool)
    (statements : List Tree) :
    let held := statements.flatMap Tree.visited
    importsOf module isPackage false statements =
      held.flatMap (fun o =>
        (referencesOf module isPackage o.2).map (Import.mk · (o.1.any Place.checksTypes))) ∧
    (∀ path : List Place, path.any Place.checksTypes = true ↔
      ∃ test, .underTest test ∈ path ∧
        (test = .name "TYPE_CHECKING" ∨ ∃ owner, test = .member owner "TYPE_CHECKING")) ∧
    (∀ base name, candidatesOf base name = [] ↔ name = "*" ∧ base = "") ∧
    ((isMainModule module || asksForMain statements) = true ↔
      (∃ before, module = before ++ "__main__") ∨
        ∃ o ∈ held, ∃ test body otherwise, o.2 = .branch test body otherwise ∧
          (test = .compare (.name "__name__") [.text "__main__"] ∨
            test = .compare (.text "__main__") [.name "__name__"])) ∧
    ∀ source, readImports module isPackage source = (parseModule source).map fun parsed =>
      ⟨importsOf module isPackage false parsed, isMainModule module || asksForMain parsed⟩ := by
  intro held
  refine ⟨importsOf_eq statements, fun _ => any_checksTypes_iff, fun _ _ => candidatesOf_eq_nil_iff,
    ?_, fun _ => rfl⟩
  rw [Bool.or_eq_true, asksForMain_iff, isMainModule, Text.endsWith_iff]

/-- A module that imports a till while types are checked and everything in a cart otherwise, and
    that asks whether it is the main module. -/
def deskStatements : List Tree :=
  [.branch (.member (.name "typing") "TYPE_CHECKING")
      [.branch (.name "fast") [] [.importModules [⟨"till", none⟩]]]
      [.importFrom 0 "cart" [⟨"*", none⟩]],
    .importFrom 1 "" [⟨"*", none⟩],
    .importFrom 2 "" [⟨"*", none⟩],
    .importFrom 1 "cart" [⟨"total", some "sum"⟩, ⟨"tax", none⟩],
    .branch (.compare (.text "__main__") [.name "__name__"]) [] []]

/-- The other side of a condition on the checking of types is not marked for it, but what is below
    another condition in its body is. Everything in the cart or in the shop is an import; above the
    shop there is no package. -/
theorem readImports_lists_references_desk :
    importsOf "shop.desk" false false deskStatements =
        [⟨["till"], true⟩, ⟨["cart"], false⟩, ⟨["shop"], false⟩,
          ⟨["shop.cart.total", "shop.cart"], false⟩, ⟨["shop.cart.tax", "shop.cart"], false⟩] ∧
      (isMainModule "shop.desk" || asksForMain deskStatements) = true := by
  rcases readImports_lists_references "shop.desk" false deskStatements with
    ⟨hlist, -, -, hmain, -⟩
  refine ⟨hlist.trans (by decide +kernel), hmain.2 (.inr ?_)⟩
  let asking : Tree := .branch (.compare (.text "__main__") [.name "__name__"]) [] []
  have hasking : asking ∈ deskStatements := by simp [deskStatements, asking]
  refine ⟨([], asking), List.mem_flatMap.2 ⟨asking, hasking, ?_⟩, _, _, _, rfl, .inr rfl⟩
  rw [Tree.visited_eq]
  exact List.mem_cons_self

end PackageAlgebra.Script
