import PackageAlgebra.Calculator.Evaluate

/-!
# Evaluation Step by Step

What the evaluation of an expression does first, and what is left to do then.

An evaluation is a function of the state from which it starts, and it hands on a state
whether it fails or not. Each lemma here says for one form of expression which evaluations
it consists of. Whatever holds of an evaluation is then a matter of its parts, and nobody has
to look at the evaluator again.

## Theorems

* `Calc.bind_ok`, `Calc.bind_error`: One calculation after another.
* `Calc.loadNodes_of_ok`, `Calc.loadNodes_of_error`: A question to the loader.
* `Calc.bindVariable_of_some`, `Calc.bindVariable_of_none`: A variable is bound once.
* `evaluate_package`: A name is looked up, or loaded.
* `evaluate_setting`: A context function changes the context of its argument.
* `evaluate_group`: Names side by side are loaded together.
* `evaluate_operands`: Any other function is applied to its operands.
* `evaluate_selection`: A selector is applied to its operand.
* `evaluateEach_cons_ok`, `evaluateEach_cons_error`, `evaluateEach_cons_eq_ok_iff`: Operands are
  evaluated in turn.
-/

namespace PackageAlgebra

variable {σ ρ α β : Type} {parties : Calculator σ ρ} {ctx : Context} {s t u : CalcState σ ρ}

namespace Calc

-- The state may be of any type, so that calculations that keep more are put together alike.
section

variable {τ : Type} {c : ExceptT Failure (StateM τ) α} {f : α → ExceptT Failure (StateM τ) β}
  {before after : τ}

/-- A calculation goes on after a value. -/
theorem bind_ok {a : α} (h : c before = (.ok a, after)) : (c >>= f) before = f a after := by
  change (match c before with | (r, u) => ExceptT.bindCont f r u) = _
  rw [h]
  rfl

/-- A calculation ends with a failure. -/
theorem bind_error {e : Failure} (h : c before = (.error e, after)) :
    (c >>= f) before = (.error e, after) := by
  change (match c before with | (r, u) => ExceptT.bindCont f r u) = _
  rw [h]
  rfl

end

theorem pure_apply (a : α) : (pure a : Calc σ ρ α) s = (.ok a, s) := rfl

theorem lookup?_apply (name : String) :
    (lookup? name : Calc σ ρ (Option (PackageSet ρ))) s = (.ok (s.bindings.get? name), s) := rfl

theorem catalog_apply : catalog parties s = (.ok (parties.loader.catalog s.loader), s) := rfl

theorem attempt_ok {c : Calc σ ρ α} {a : α} (h : c s = (.ok a, t)) :
    attempt c s = (.ok (.ok a), t) := by
  unfold attempt
  rw [h]

theorem attempt_error {c : Calc σ ρ α} {e : CalcError} (h : c s = (.error (.error e), t)) :
    attempt c s = (.ok (.error e), t) := by
  unfold attempt
  rw [h]

/-- A fault is no outcome. -/
theorem attempt_fault {c : Calc σ ρ α} {f : Fault} (h : c s = (.error (.fault f), t)) :
    attempt c s = (.error (.fault f), t) := by
  unfold attempt
  rw [h]

/-- A question to the loader, as it is written down. -/
def callOf (config : LoadConfig) (patterns : List String) : LoadCall :=
  ⟨patterns, config.tests, config.tags, config.env⟩

theorem loadNodes_of_ok {config : LoadConfig} {patterns : List String} {roots : List (Node ρ)}
    {kept : σ} (h : parties.loader.load config patterns s.loader = (.ok roots, kept)) :
    loadNodes parties config patterns s =
      (.ok roots, { s.record (callOf config patterns) with loader := kept }) := by
  unfold loadNodes
  simp only [CalcState.record, h]
  rfl

theorem loadNodes_of_error {config : LoadConfig} {patterns : List String} {e : LoadError}
    {kept : σ} (h : parties.loader.load config patterns s.loader = (.error e, kept)) :
    loadNodes parties config patterns s =
      (.error (.error (.load e)), { s.record (callOf config patterns) with loader := kept }) := by
  unfold loadNodes
  simp only [CalcState.record, h]
  rfl

/-- A name that has a value is not bound again. -/
theorem bindVariable_of_some {name : String} {first : PackageSet ρ} (a : PackageSet ρ)
    (h : s.bindings.get? name = some first) :
    bindVariable name a s = (.error (.error (.eval (.variableExists name))), s) := by
  have hget : (get : Calc σ ρ (CalcState σ ρ)) s = (.ok s, s) := rfl
  unfold bindVariable
  rw [bind_ok hget, h]
  rfl

/-- A name without a value is bound. -/
theorem bindVariable_of_none {name : String} (a : PackageSet ρ)
    (h : s.bindings.get? name = none) :
    bindVariable name a s = (.ok (), { s with bindings := s.bindings.insert name a }) := by
  have hget : (get : Calc σ ρ (CalcState σ ρ)) s = (.ok s, s) := rfl
  unfold bindVariable
  rw [bind_ok hget, h]
  rfl

end Calc

open Calc

/-! ### Expressions -/

/-- The value of a name is that of the variable, or what the loader finds. -/
theorem evaluate_package (name : String) :
    evaluate parties ctx (.package name) s = match s.bindings.get? name with
      | some a => (.ok a, s)
      | none => loadRoots parties ctx.config [name] s := by
  unfold evaluate
  rw [bind_ok (lookup?_apply name)]
  cases s.bindings.get? name <;> rfl

/-- A context function evaluates its argument in a changed context. -/
theorem evaluate_setting {func : String} (h : Expr.isSetting func = true) (arg : Expr) :
    evaluate parties ctx (.call func [arg]) =
      evaluate parties (ctx.assign (splitEntry func).1 (splitEntry func).2) arg := by
  rw [evaluate, if_pos h]

/-- Names side by side are looked up and loaded together. -/
theorem evaluate_group {args : List Expr} {name : String} {names : List String}
    (h : bareNames? args = some (name :: names)) :
    evaluate parties ctx (.call "" args) = evaluateGroup parties ctx (name :: names) := by
  have hsetting : ¬ Expr.isSetting "" = true := by decide
  have hjoin : SetFunction.ofName? (Text.lower "") = some (.join .union) := by decide
  unfold evaluate
  rw [if_neg hsetting, hjoin]
  simp only [SetFunction.arity?, Option.any_none, Bool.false_eq_true, if_false, h]

/-- The right number of arguments is not a wrong one. -/
theorem not_any_arity {f : SetFunction} {count : Nat} (h : ∀ n, f.arity? = some n → count = n) :
    ¬ f.arity?.any (· ≠ count) = true := by
  rw [Option.any_eq_true]
  rintro ⟨n, hn, hne⟩
  exact of_decide_eq_true hne (h n hn).symm

/-- Any other function is applied to its operands, if all of them have a value. -/
theorem evaluate_operands {func : String} {args : List Expr} {f : SetFunction}
    (hsetting : Expr.isSetting func = false) (hf : SetFunction.ofName? (Text.lower func) = some f)
    (hcount : ¬ f.arity?.any (· ≠ args.length) = true)
    (hgroup : func = "" → ∀ name names, bareNames? args ≠ some (name :: names)) :
    evaluate parties ctx (.call func args) = (do
      let (operands, errors) ← evaluateEach parties ctx args
      if errors.isEmpty then applyFunction parties ctx f operands
      else Calc.fail (.combine errors)) := by
  unfold evaluate
  rw [if_neg (Bool.eq_false_iff.1 hsetting), hf]
  simp only [if_neg hcount]
  split
  · next name names hnames => exact absurd hnames (hgroup rfl name names)
  · rfl

/-- A selector other than that of tests is applied to its operand. -/
theorem evaluate_selection {operand : Expr} {selector : String} {selection : Selection}
    (hselection : Selection.ofName? (Combinator.ofText selector).2 = some selection)
    (htest : selection ≠ .test) :
    evaluate parties ctx (.select operand selector) = (do
      let a ← evaluate parties ctx operand
      return selection.apply (← catalog parties) (Combinator.ofText selector).1 a) := by
  rw [evaluate.eq_def]
  simp only [hselection]

/-! ### Operands -/

/-- An operand with a value is put before those that follow. -/
theorem evaluateEach_cons_ok {e : Expr} {rest : List Expr} {a : PackageSet ρ}
    {operands : List (PackageSet ρ)} {errors : List CalcError}
    (he : evaluate parties ctx e s = (.ok a, t))
    (hrest : evaluateEach parties ctx rest t = (.ok (operands, errors), u)) :
    evaluateEach parties ctx (e :: rest) s = (.ok (a :: operands, errors), u) := by
  rw [evaluateEach, bind_ok (attempt_ok he), bind_ok hrest]
  rfl

/-- The error of an operand does not keep those that follow from being evaluated. -/
theorem evaluateEach_cons_error {e : Expr} {rest : List Expr} {cause : CalcError}
    {operands : List (PackageSet ρ)} {errors : List CalcError}
    (he : evaluate parties ctx e s = (.error (.error cause), t))
    (hrest : evaluateEach parties ctx rest t = (.ok (operands, errors), u)) :
    evaluateEach parties ctx (e :: rest) s = (.ok (operands, cause :: errors), u) := by
  rw [evaluateEach, bind_ok (attempt_error he), bind_ok hrest]
  rfl

/-- Operands have values if each of them has one, from what those before it leave behind. -/
theorem evaluateEach_cons_eq_ok_iff {e : Expr} {rest : List Expr} {sets : List (PackageSet ρ)} :
    evaluateEach parties ctx (e :: rest) s = (.ok (sets, []), u) ↔
      ∃ a t operands, evaluate parties ctx e s = (.ok a, t) ∧
        evaluateEach parties ctx rest t = (.ok (operands, []), u) ∧ sets = a :: operands := by
  constructor
  · intro h
    rcases he : evaluate parties ctx e s with ⟨(cause | fault) | a, t⟩
    · rcases hrest : evaluateEach parties ctx rest t with ⟨failure | ⟨operands, errors⟩, v⟩
      · rw [evaluateEach, bind_ok (attempt_error he), bind_error hrest] at h
        cases h
      · rw [evaluateEach_cons_error he hrest] at h
        cases h
    · rw [evaluateEach, bind_error (attempt_fault he)] at h
      cases h
    · rcases hrest : evaluateEach parties ctx rest t with ⟨failure | ⟨operands, errors⟩, v⟩
      · rw [evaluateEach, bind_ok (attempt_ok he), bind_error hrest] at h
        cases h
      · rw [evaluateEach_cons_ok he hrest] at h
        cases h
        exact ⟨a, t, operands, rfl, hrest, rfl⟩
  · rintro ⟨a, t, operands, he, hrest, rfl⟩
    exact evaluateEach_cons_ok he hrest

/-- A function that asks for no symbols has a value for all operands. -/
theorem applyFunction_ok {f : SetFunction} (hf : f ≠ .deadcode)
    (operands : List (PackageSet ρ)) :
    ∃ a, applyFunction parties ctx f operands s = (.ok a, s) := by
  unfold applyFunction
  split
  · exact ⟨_, rfl⟩
  · exact ⟨_, rfl⟩
  · exact ⟨_, rfl⟩
  · exact ⟨_, rfl⟩
  · exact absurd rfl hf
  · exact ⟨_, rfl⟩

end PackageAlgebra
