import Mathlib.Data.List.Basic
import PackageAlgebra.Script.Calls

/-!
# What is Around a Node

Where a node occurs in a module, and towards what its calls count.

A visit of a module goes down from statements to their parts, and takes along which functions and
classes it has gone through. A node may occur in several places, so what is around it belongs to
the occurrence: the path of the functions and classes between the statement at the top and the
node. A call counts towards the outermost function of its path. The classes around that function
belong to its name, and what is inside of it does not matter any more. Everything else that a
statement may stand in, a condition or a loop, leaves no trace in the path.

## Main definitions

* `Frame`: A function or a class around a node.
* `Tree.Holds`: A node occurs in another one, with some path.
* `outermost?`, `home`: The name that the calls of a path count towards.
* `around`: What a visit takes along into the parts of a node.

## Theorems

* `Tree.induction_children`: What holds if it holds of all parts holds of every node.
* `Tree.Holds.exists_outermost`: The outermost function of a path.
* `mem_callSitesIn_iff_children`: A call is that of the node, or of one of its parts.
* `mem_callSites_iff`: The calls of statements are those that occur in them.
-/

namespace PackageAlgebra.Script

/-! ### Parts -/

/-- A part is smaller than the node. -/
theorem Tree.sizeOf_lt_of_mem_children {t c : Tree} (hc : c ∈ t.children) :
    sizeOf c < sizeOf t := by
  have hlist : ∀ {l : List Tree}, c ∈ l → sizeOf c < sizeOf l := List.sizeOf_lt_of_mem
  cases t <;> grind [Tree.children]

/-- What holds of a node if it holds of all its parts holds of every node. -/
theorem Tree.induction_children {P : Tree → Prop} (h : ∀ t, (∀ c ∈ t.children, P c) → P t)
    (t : Tree) : P t :=
  h t fun c hc =>
    have := Tree.sizeOf_lt_of_mem_children hc
    Tree.induction_children h c
termination_by sizeOf t

/-! ### Paths -/

/-- A function or a class around a node. -/
inductive Frame
  -- A function.
  | function (name : String)
  -- A class.
  | classDef (name : String)

namespace Tree

/-- What a node puts around its parts. -/
def frame? : Tree → Option Frame
  | function f _ _ _ => some (.function f)
  | classDef c _ _ _ => some (.classDef c)
  | _ => none

/-- A node holds another one, with functions and classes in between, the outermost first. -/
inductive Holds : Tree → List Frame → Tree → Prop
  | self (t : Tree) : Holds t [] t
  | part {t c u : Tree} {path : List Frame} (hc : c ∈ t.children) (h : Holds c path u) :
      Holds t (t.frame?.toList ++ path) u

variable {t u : Tree} {path : List Frame}

/-- A node holds itself, and what its parts hold. -/
theorem holds_iff : t.Holds path u ↔ (path = [] ∧ t = u) ∨
    ∃ c ∈ t.children, ∃ rest, path = t.frame?.toList ++ rest ∧ c.Holds rest u := by
  constructor
  · rintro (_ | ⟨hc, h⟩)
    · exact .inl ⟨rfl, rfl⟩
    · exact .inr ⟨_, hc, _, rfl, h⟩
  · rintro (⟨rfl, rfl⟩ | ⟨c, hc, rest, rfl, h⟩)
    · exact .self t
    · exact .part hc h

end Tree

/-- The name of the outermost function of a path: its own, after those of the classes around
    it. -/
def outermost? (classes : List String) : List Frame → Option String
  | [] => none
  | .function name :: _ => some (Text.join "." (classes ++ [name]))
  | .classDef name :: rest => outermost? (classes ++ [name]) rest

/-- The name that the calls of a path count towards: that of the outermost function, or that of the
    body of the module. -/
def home (path : List Frame) : String := (outermost? [] path).getD moduleBody

/-- Whether a path has a function does not depend on what is above it. -/
theorem outermost?_eq_none_iff {classes : List String} {path : List Frame} :
    outermost? classes path = none ↔ outermost? [] path = none := by
  induction path generalizing classes with
  | nil => exact Iff.rfl
  | cons frame rest ih =>
      cases frame with
      | function name => exact iff_of_false (Option.some_ne_none _) (Option.some_ne_none _)
      | classDef name => exact ih.trans ih.symm

/-- The outermost function of a path is held above whatever the path leads to, with no function
    around it. -/
theorem Tree.Holds.exists_outermost {t u : Tree} {path : List Frame} {classes : List String}
    {name : String} (h : t.Holds path u) (hname : outermost? classes path = some name) :
    ∃ above f signature body closing, t.Holds above (.function f signature body closing) ∧
      outermost? [] above = none ∧ outermost? classes (above ++ [.function f]) = some name := by
  induction h generalizing classes with
  | self t => cases hname
  | @part t c u path hc _ ih =>
      have hself := Tree.Holds.self t
      cases t with
      | function f signature body closing =>
          exact ⟨[], f, signature, body, closing, hself, rfl, hname⟩
      | classDef name bases body decorators =>
          rcases ih hname with ⟨above, f, signature, inner, closing, hholds, hnone, hname⟩
          have habove : outermost? [name] above = none := outermost?_eq_none_iff.2 hnone
          exact ⟨_, f, signature, inner, closing, .part hc hholds, habove, hname⟩
      | _ =>
          -- Anything else leaves no trace in the path.
          rcases ih hname with ⟨above, f, signature, inner, closing, hholds, hrest⟩
          exact ⟨above, f, signature, inner, closing, .part hc hholds, hrest⟩

/-! ### The calls of a node -/

variable {scope : Option String} {classes : List String} {site : CallSite} {t : Tree}

/-- The function and the classes that a visit takes along into the parts of a node. -/
def around (scope : Option String) (classes : List String) : Option Frame →
    Option String × List String
  | none => (scope, classes)
  | some (.function name) => (some (enter scope classes name), [])
  | some (.classDef name) => (scope, classes ++ [name])

/-- What a visit takes along is the outermost function of the path so far. -/
theorem outermost?_around (frame : Option Frame) (rest : List Frame) :
    (around scope classes frame).1.or (outermost? (around scope classes frame).2 rest) =
      scope.or (outermost? classes (frame.toList ++ rest)) := by
  rcases frame with _ | ⟨name⟩ | ⟨name⟩
  · rfl
  · cases scope <;> rfl
  · rfl

theorem mem_callSites {ts : List Tree} :
    site ∈ callSites scope classes ts ↔ ∃ t ∈ ts, site ∈ callSitesIn scope classes t := by
  induction ts with
  | nil => simp only [callSites, List.not_mem_nil, false_and, exists_false]
  | cons t rest ih => rw [callSites, List.mem_append, ih, List.exists_mem_cons_iff]

/-- A call is that of the node itself, or it is one of a part. -/
theorem mem_callSitesIn_iff_children : site ∈ callSitesIn scope classes t ↔
    (∃ func args, t = .call func args ∧ site = ⟨scope, func⟩) ∨
      ∃ c ∈ t.children, site ∈
        callSitesIn (around scope classes t.frame?).1 (around scope classes t.frame?).2 c := by
  cases t <;> simp [callSitesIn, mem_callSites, Tree.children, Tree.frame?, around, or_and_right,
    exists_or]

/-- The calls within a node are those that it holds, each with the outermost function of its
    path. -/
theorem mem_callSitesIn_iff : site ∈ callSitesIn scope classes t ↔
    ∃ path func args, t.Holds path (.call func args) ∧
      site = ⟨scope.or (outermost? classes path), func⟩ := by
  induction t using Tree.induction_children generalizing scope classes with
  | h t ih =>
    rw [mem_callSitesIn_iff_children]
    constructor
    · rintro (⟨func, args, rfl, rfl⟩ | ⟨c, hc, hsite⟩)
      · exact ⟨[], func, args, .self _, by rw [outermost?, Option.or_none]⟩
      · rcases (ih c hc).1 hsite with ⟨path, func, args, hholds, rfl⟩
        exact ⟨_, func, args, .part hc hholds, by rw [outermost?_around]⟩
    · rintro ⟨path, func, args, hholds, rfl⟩
      rcases Tree.holds_iff.1 hholds with ⟨rfl, rfl⟩ | ⟨c, hc, rest, rfl, hrest⟩
      · exact .inl ⟨func, args, rfl, by rw [outermost?, Option.or_none]⟩
      · refine .inr ⟨c, hc, (ih c hc).2 ⟨rest, func, args, hrest, ?_⟩⟩
        rw [outermost?_around]

/-- The calls of the statements of a module are those that occur in them, each with the outermost
    function of its path. -/
theorem mem_callSites_iff {statements : List Tree} : site ∈ callSites none [] statements ↔
    ∃ t ∈ statements, ∃ path func args, t.Holds path (.call func args) ∧
      site = ⟨outermost? [] path, func⟩ := by
  rw [mem_callSites]
  simp only [mem_callSitesIn_iff, Option.none_or]

end PackageAlgebra.Script
