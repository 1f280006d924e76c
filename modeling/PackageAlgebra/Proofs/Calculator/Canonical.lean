import PackageAlgebra.Calculator.Evaluate
import PackageAlgebra.Proofs.Query.Printing

/-!
# Canonical Queries

A query in canonical form stands for the set that the query stands for.

The printer knows which names spell an operator out, and so does the evaluator, each from
a table of its own. They agree: a name that is shown as an operator is the name of the
operation that the operator stands for. Apart from its name, a call is told from others by
whether it sets something, by whether it juxtaposes names, and by how an error shows it,
and none of these changes with the names of the functions in it.

So a query that was printed can be read again and asked again.

## Main definitions

* `Joins`: A function joins the sets of its operands.
* `KeepsValue`: An expression is evaluated like its canonical form.

## Theorems

* `evaluate_call_canonicalName`: A function does what the name that is shown for it does.
* `evaluate_canonical`: A canonical form is evaluated as the expression is.
* `parse_print`: A printed query is read and evaluated as it was.
-/

namespace PackageAlgebra

open PackageAlgebra.Expr

variable {σ ρ : Type} {parties : Calculator σ ρ} {ctx : Context} {func selector : String}
  {operand : Expr} {args : List Expr}

/-! ### Names of functions -/

/-- A function joins the sets of its operands, whatever these are. -/
structure Joins (func : String) (op : SetOp) : Prop where
  -- It is no context function.
  setting : isSetting func = false
  -- It is the name of the operation.
  name : SetFunction.ofName? (Text.lower func) = some (.join op)
  -- It does not juxtapose.
  ne_empty : func ≠ ""

theorem joins_of_lower {name : String} {op : SetOp} (hlower : Text.lower func = name)
    (hassign : '=' ∉ name.toList) (hname : SetFunction.ofName? name = some (.join op))
    (hne : name ≠ "") : Joins func op := by
  refine ⟨?_, by rw [hlower, hname], ?_⟩
  · -- An equals sign would be left in lower case.
    unfold isSetting
    rw [← Bool.not_eq_true, List.contains_iff_mem]
    intro hmem
    have hkept : '=' ∈ Text.lowerChars [] func.toList :=
      Text.mem_lowerChars (by decide) (by decide) [] hmem
    rw [← hlower, Text.lower, String.toList_ofList] at hassign
    exact hassign hkept
  · rintro rfl
    exact hne (hlower.symm.trans (by decide))

/-- A function that joins sets is applied to those of its operands. -/
theorem evaluate_joins {op : SetOp} (h : Joins func op) :
    evaluate parties ctx (.call func args) = (do
      let (operands, errors) ← evaluateEach parties ctx args
      if errors.isEmpty then applyFunction parties ctx (.join op) operands
      else Calc.fail (.combine errors)) := by
  unfold evaluate
  rw [h.setting, h.name]
  simp only [Bool.false_eq_true, if_false, SetFunction.arity?, Option.any_none]
  split
  · exact absurd rfl h.ne_empty
  · rfl

/-- A function does what the name that is shown for it does. -/
theorem evaluate_call_canonicalName :
    evaluate parties ctx (.call (canonicalName func) args) =
      evaluate parties ctx (.call func args) := by
  rcases canonicalName_cases func with hshown | ⟨hlower, hshown⟩ | ⟨hlower, hshown⟩
  · rw [hshown]
  · have hplus : Joins "+" .union := ⟨by decide, by decide, by decide⟩
    have hspelled : Joins func .union := by
      rcases hlower with hlower | hlower <;>
        exact joins_of_lower hlower (by decide) (by decide) (by decide)
    rw [hshown, evaluate_joins hplus, evaluate_joins hspelled]
  · have hminus : Joins "-" .subtract := ⟨by decide, by decide, by decide⟩
    have hspelled : Joins func .subtract := by
      rcases hlower with hlower | hlower <;>
        exact joins_of_lower hlower (by decide) (by decide) (by decide)
    rw [hshown, evaluate_joins hminus, evaluate_joins hspelled]

/-! ### Operands -/

/-- An expression is evaluated like its canonical form, in every context. -/
def KeepsValue (parties : Calculator σ ρ) (e : Expr) : Prop :=
  ∀ ctx, evaluate parties ctx e.canonical = evaluate parties ctx e

theorem length_canonicalAll (es : List Expr) : (canonicalAll es).length = es.length := by
  induction es with
  | nil => rfl
  | cons e rest ih => rw [canonicalAll, List.length_cons, List.length_cons, ih]

theorem bareNames?_canonicalAll (es : List Expr) :
    bareNames? (canonicalAll es) = bareNames? es := by
  induction es with
  | nil => rfl
  | cons e rest ih => cases e <;> simp only [canonicalAll, canonical, bareNames?, ih]

theorem evaluateEach_canonicalAll (h : ∀ arg ∈ args, KeepsValue parties arg) :
    evaluateEach parties ctx (canonicalAll args) = evaluateEach parties ctx args := by
  induction args with
  | nil => rfl
  | cons e rest ih =>
      have he := h e List.mem_cons_self ctx
      have hrest := ih fun arg harg => h arg (List.mem_cons_of_mem e harg)
      simp only [canonicalAll, evaluateEach, he, hrest]

theorem evaluateLast_canonicalAll {last : PackageSet ρ}
    (h : ∀ arg ∈ args, KeepsValue parties arg) :
    evaluateLast parties ctx last (canonicalAll args) = evaluateLast parties ctx last args := by
  induction args generalizing last with
  | nil => rfl
  | cons e rest ih =>
      have he := h e List.mem_cons_self ctx
      have hrest : ∀ last, evaluateLast parties ctx last (canonicalAll rest) =
          evaluateLast parties ctx last rest :=
        fun _ => ih fun arg harg => h arg (List.mem_cons_of_mem e harg)
      simp only [canonicalAll, evaluateLast, he, hrest]

theorem evaluate_call_canonicalAll (h : ∀ arg ∈ args, KeepsValue parties arg) :
    evaluate parties ctx (.call func (canonicalAll args)) =
      evaluate parties ctx (.call func args) := by
  unfold evaluate
  by_cases hsetting : isSetting func = true
  · -- A context function evaluates its argument in another context, if there is just one.
    rw [if_pos hsetting, if_pos hsetting]
    rcases args with _ | ⟨arg, _ | ⟨second, rest⟩⟩
    · rfl
    · exact h arg (List.mem_singleton_self arg) _
    · simp only [canonicalAll, List.length_cons, length_canonicalAll]
  · rw [if_neg hsetting, if_neg hsetting]
    simp only [evaluateEach_canonicalAll h, bareNames?_canonicalAll, length_canonicalAll, print,
      printAll_canonicalAll]

theorem evaluate_select_canonical (h : KeepsValue parties operand) :
    evaluate parties ctx (.select operand.canonical selector) =
      evaluate parties ctx (.select operand selector) := by
  cases operand with
  | package name => rfl
  | absent => rfl
  | _ =>
      unfold KeepsValue at h
      simp only [canonical] at h ⊢
      unfold evaluate
      simp only [h, print, printAll_canonicalAll, canonicalName_canonicalName, print_canonical]

mutual

/-- A canonical form is evaluated as the expression is. -/
theorem evaluate_canonical (parties : Calculator σ ρ) : ∀ e : Expr, KeepsValue parties e
  | .package _ => fun _ => rfl
  | .sequence statements => fun ctx => by
      have h := forall_evaluate_canonical parties statements
      simp only [canonical, evaluate, evaluateLast_canonicalAll h]
  | .assign name value => fun ctx => by
      simp only [canonical, evaluate, evaluate_canonical parties value ctx]
  | .select operand selector => fun ctx => by
      rw [canonical, evaluate_select_canonical (evaluate_canonical parties operand)]
  | .call func args => fun ctx => by
      have h := forall_evaluate_canonical parties args
      rw [canonical, evaluate_call_canonicalName, evaluate_call_canonicalAll h]
  | .absent => fun _ => rfl

theorem forall_evaluate_canonical (parties : Calculator σ ρ) :
    ∀ es : List Expr, ∀ e ∈ es, KeepsValue parties e
  | [] => fun _ he => absurd he List.not_mem_nil
  | e :: rest => List.forall_mem_cons.2
      ⟨evaluate_canonical parties e, forall_evaluate_canonical parties rest⟩

end

/-- A printed query is read as its canonical form, and that is evaluated as the query is:
    in every context and from every state it has the same outcome, set or error, and leaves
    the same state behind, its variables included. -/
theorem parse_print {e : Expr} (h : e.PrintableQuery) :
    (QueryText.line e.print).parse = .ok (some e.canonical) ∧
      ∀ {σ ρ : Type} (parties : Calculator σ ρ) (ctx : Context),
        evaluate parties ctx e.canonical = evaluate parties ctx e :=
  ⟨h.written.parse, fun parties => evaluate_canonical parties e⟩

/-- `x := Or(a:+test, goos=linux(SUBTRACT(b, c))); Exclude(add(x, a), d/e)` -/
def spelledOut : Expr :=
  .sequence [
    .assign "x" (.call "Or" [.select (.package "a") "+test",
      .call "goos=linux" [.call "SUBTRACT" [.package "b", .package "c"]]]),
    .call "Exclude" [.call "add" [.package "x", .package "a"], .package "d/e"]]

/-- All four names are shown as operators, and read as these. The function that sets a variable
    keeps its name. -/
theorem parse_print_spelledOut :
    spelledOut.PrintableQuery ∧
      spelledOut.print = "x := +(a:+test, goos=linux(-(b, c))); -(+(x, a), d/e)" ∧
      spelledOut.canonical = .sequence [
        .assign "x" (.call "+" [.select (.package "a") "+test",
          .call "goos=linux" [.call "-" [.package "b", .package "c"]]]),
        .call "-" [.call "+" [.package "x", .package "a"], .package "d/e"]] ∧
      (QueryText.line spelledOut.print).parse = .ok (some spelledOut.canonical) := by
  have hname : ∀ name ∈ ["x", "a", "b", "c", "d/e"], (Expr.package name).Printable := by
    have hvalid : ∀ name ∈ ["x", "a", "b", "c", "d/e"], Token.isPackageName name = true := by
      decide
    exact fun name hmem => .package (hvalid name hmem)
  have hpair : ∀ {e f : Expr}, e.Printable → f.Printable → ∀ arg ∈ [e, f], arg.Printable :=
    fun he hf => List.forall_mem_cons.2 ⟨he, List.forall_mem_singleton.2 hf⟩
  have htest : (Expr.select (.package "a") "+test").Printable :=
    .select (by decide) (hname "a" (by decide))
  have hsubtract : (Expr.call "SUBTRACT" [.package "b", .package "c"]).Printable :=
    .call (by decide) (by decide) (hpair (hname "b" (by decide)) (hname "c" (by decide)))
  have hlinux :
      (Expr.call "goos=linux" [.call "SUBTRACT" [.package "b", .package "c"]]).Printable :=
    .call (by decide) (by decide) (List.forall_mem_singleton.2 hsubtract)
  have hor : (Expr.call "Or" [.select (.package "a") "+test",
      .call "goos=linux" [.call "SUBTRACT" [.package "b", .package "c"]]]).Printable :=
    .call (by decide) (by decide) (hpair htest hlinux)
  have hadd : (Expr.call "add" [.package "x", .package "a"]).Printable :=
    .call (by decide) (by decide) (hpair (hname "x" (by decide)) (hname "a" (by decide)))
  have hexclude : (Expr.call "Exclude" [.call "add" [.package "x", .package "a"],
      .package "d/e"]).Printable :=
    .call (by decide) (by decide) (hpair hadd (hname "d/e" (by decide)))
  have hprintable : spelledOut.PrintableQuery := by
    refine .sequence (List.forall_mem_cons.2 ⟨.binding (by decide) hor, ?_⟩)
    exact List.forall_mem_singleton.2 (.value hexclude)
  have hplus : ∀ func ∈ ["Or", "add"], canonicalName func = "+" := by
    have hspelled : ∀ func ∈ ["Or", "add"],
        Text.lower func = "add" ∨ Text.lower func = "or" := by decide
    exact fun func hfunc => canonicalName_eq_plus (hspelled func hfunc)
  have hminus : ∀ func ∈ ["SUBTRACT", "Exclude"], canonicalName func = "-" := by
    have hspelled : ∀ func ∈ ["SUBTRACT", "Exclude"],
        Text.lower func = "subtract" ∨ Text.lower func = "exclude" := by decide
    exact fun func hfunc => canonicalName_eq_minus (hspelled func hfunc)
  have hkept : canonicalName "goos=linux" = "goos=linux" :=
    canonicalName_eq_self (by decide) (by decide)
  refine ⟨hprintable, by decide, ?_, (parse_print hprintable).1⟩
  simp only [spelledOut, canonical, canonicalAll, hkept,
    hplus "Or" (by decide), hplus "add" (by decide), hminus "SUBTRACT" (by decide),
    hminus "Exclude" (by decide)]

end PackageAlgebra
