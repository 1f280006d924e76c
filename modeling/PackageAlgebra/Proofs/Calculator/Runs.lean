import PackageAlgebra.Proofs.Calculator.Steps

/-!
# Runs

What holds from the beginning of an evaluation to its end.

An evaluation changes the state in three ways only: it asks the loader, it asks the oracle, and
it binds a variable that is not bound yet. A relation between states that holds over each of
these, and over any number of them one after the other, holds over every evaluation. It does
not matter how the evaluation ends: a failure stops it after some of the steps, and the
operands beside one that fails go on from what that one has left behind.

## Main definitions

* `Expr.assignedNames`: The names of the assignments in an expression.
* `Calculator.Carries`: A relation holds over every step that binds only some names.
* `Calc.Follows`: A relation holds over a calculation.

## Theorems

* `Calc.Follows.bind`, `Calc.Follows.attempt`: Calculations put together.
* `evaluate_follows`: A relation that holds over every step holds over every evaluation.
-/

namespace PackageAlgebra

variable {σ ρ α β : Type}

namespace Expr

mutual

/-- The names of the assignments in an expression. -/
def assignedNames : Expr → List String
  | .package _ => []
  | .sequence statements => assignedNamesAll statements
  | .assign name value => name :: assignedNames value
  | .select operand _ => assignedNames operand
  | .call _ args => assignedNamesAll args
  | .absent => []

/-- The names of the assignments in a list of expressions. -/
def assignedNamesAll : List Expr → List String
  | [] => []
  | e :: rest => assignedNames e ++ assignedNamesAll rest

end

end Expr

/-- A relation holds over every step of an evaluation that binds only some names. -/
structure Calculator.Carries (parties : Calculator σ ρ) (names : List String)
    (R : CalcState σ ρ → CalcState σ ρ → Prop) : Prop where
  -- It holds where nothing happens.
  refl : ∀ s, R s s
  -- It holds over two steps if it holds over each of them.
  trans : ∀ {s t u}, R s t → R t u → R s u
  -- It holds over a question to the loader.
  load : ∀ config patterns s, R s (Calc.loadNodes parties config patterns s).2
  -- It holds over a question to the oracle.
  oracle : ∀ oracle, parties.oracle = some oracle → ∀ config ids s,
    R s (Calc.askOracle oracle config ids s).2
  -- It holds over the binding of one of the names.
  bind : ∀ name ∈ names, ∀ a s, s.bindings.get? name = none →
    R s { s with bindings := s.bindings.insert name a }

/-- A relation holds over a calculation, from each state to what is left behind. -/
def Calc.Follows (R : CalcState σ ρ → CalcState σ ρ → Prop) (c : Calc σ ρ α) : Prop :=
  ∀ s, R s (c s).2

variable {parties : Calculator σ ρ} {names : List String} {ctx : Context}
  {R : CalcState σ ρ → CalcState σ ρ → Prop}

namespace Calc

/-! ### Calculations -/

theorem Follows.pure (h : parties.Carries names R) (a : α) :
    (Pure.pure a : Calc σ ρ α).Follows R := h.refl

theorem Follows.fail (h : parties.Carries names R) (e : CalcError) :
    (Calc.fail e : Calc σ ρ α).Follows R := h.refl

theorem Follows.bind (h : parties.Carries names R) {c : Calc σ ρ α} {f : α → Calc σ ρ β}
    (hc : c.Follows R) (hf : ∀ a, (f a).Follows R) : (c >>= f).Follows R := by
  intro s
  have hfirst := hc s
  rcases hrun : c s with ⟨outcome | a, t⟩
  · rw [hrun] at hfirst
    rw [bind_error hrun]
    exact hfirst
  · rw [hrun] at hfirst
    rw [bind_ok hrun]
    exact h.trans hfirst (hf a t)

theorem Follows.attempt {c : Calc σ ρ α} (hc : c.Follows R) : (attempt c).Follows R := by
  intro s
  have hrun := hc s
  unfold Calc.attempt
  -- The outcome is another one, and the state is the same.
  split
  · next heq => rwa [heq] at hrun
  · next heq => rwa [heq] at hrun
  · next heq => rwa [heq] at hrun

theorem follows_lookup? (h : parties.Carries names R) (name : String) :
    (lookup? name : Calc σ ρ (Option (PackageSet ρ))).Follows R := h.refl

theorem follows_catalog (h : parties.Carries names R) : (catalog parties).Follows R := h.refl

theorem follows_loadRoots (h : parties.Carries names R) (config : LoadConfig)
    (patterns : List String) : (loadRoots parties config patterns).Follows R :=
  .bind h (h.load config patterns) fun _ => .pure h _

theorem follows_bindVariable (h : parties.Carries names R) {name : String} (hname : name ∈ names)
    (a : PackageSet ρ) : (bindVariable name a : Calc σ ρ Unit).Follows R := by
  intro s
  cases hbound : s.bindings.get? name with
  | some first =>
      rw [bindVariable_of_some a hbound]
      exact h.refl s
  | none =>
      rw [bindVariable_of_none a hbound]
      exact h.bind name hname a s hbound

theorem follows_deadcode (h : parties.Carries names R) (config : LoadConfig) (a : PackageSet ρ) :
    (deadcode parties config a).Follows R := by
  unfold deadcode
  split
  · exact .fail h _
  · next oracle horacle =>
    split
    · exact .fail h _
    · split
      · exact .pure h _
      · exact .bind h (h.oracle oracle horacle config _) fun _ => .pure h _

end Calc

open Calc

/-! ### Functions and selectors -/

theorem follows_applyFunction (h : parties.Carries names R) (f : SetFunction)
    (operands : List (PackageSet ρ)) : (applyFunction parties ctx f operands).Follows R := by
  unfold applyFunction
  split
  · exact .pure h _
  · exact .bind h (follows_catalog h) fun _ => .pure h _
  · exact .bind h (follows_catalog h) fun _ => .pure h _
  · exact .bind h (follows_catalog h) fun _ => .pure h _
  · exact follows_deadcode h _ _
  · exact .pure h _

theorem follows_testsOfName (h : parties.Carries names R) (name : String) (c : Combinator) :
    (testsOfName parties ctx name c).Follows R := by
  cases c with
  | keep => exact .bind h (follows_loadRoots h _ _) fun _ => .pure h _
  | add => exact follows_loadRoots h _ _
  | remove => exact follows_loadRoots h _ _

theorem follows_testsOfSet (h : parties.Carries names R) (c : Combinator) (a : PackageSet ρ) :
    (testsOfSet parties ctx c a).Follows R := by
  unfold testsOfSet
  split
  · exact .pure h _
  · exact .bind h (follows_loadRoots h _ _) fun _ => .pure h _

theorem follows_evaluateGroup (h : parties.Carries names R) (group : List String) :
    (evaluateGroup parties ctx group).Follows R := by
  refine .bind h (c := get) h.refl fun s => ?_
  dsimp only
  split
  · exact .pure h _
  · exact .bind h (follows_loadRoots h _ _) fun _ => .pure h _

/-! ### Operands -/

variable {args : List Expr}

theorem evaluateLast_follows (h : parties.Carries names R)
    (hargs : ∀ arg ∈ args, (evaluate parties ctx arg).Follows R) (last : PackageSet ρ) :
    (evaluateLast parties ctx last args).Follows R := by
  induction args generalizing last with
  | nil => exact .pure h last
  | cons arg rest ih =>
      rw [List.forall_mem_cons] at hargs
      exact .bind h hargs.1 fun a => ih hargs.2 a

theorem evaluateEach_follows (h : parties.Carries names R)
    (hargs : ∀ arg ∈ args, (evaluate parties ctx arg).Follows R) :
    (evaluateEach parties ctx args).Follows R := by
  induction args with
  | nil => exact .pure h _
  | cons arg rest ih =>
      rw [List.forall_mem_cons] at hargs
      refine .bind h hargs.1.attempt fun outcome => .bind h (ih hargs.2) fun others => ?_
      cases outcome <;> exact .pure h _

/-! ### Evaluation -/

theorem evaluate_call_follows (h : parties.Carries names R) (func : String)
    (hargs : ∀ arg ∈ args, ∀ ctx, (evaluate parties ctx arg).Follows R) :
    (evaluate parties ctx (.call func args)).Follows R := by
  unfold evaluate
  split
  · -- A context function evaluates its argument in another context, if there is just one.
    split
    · next arg => exact hargs arg (List.mem_singleton_self arg) _
    · exact .fail h _
  · split
    · exact .fail h _
    · split
      · exact .fail h _
      · split
        · exact follows_evaluateGroup h _
        · refine .bind h (evaluateEach_follows h fun arg harg => hargs arg harg ctx) fun each => ?_
          dsimp only
          split
          · exact follows_applyFunction h _ _
          · exact .fail h _

theorem evaluate_select_follows (h : parties.Carries names R) {operand : Expr} (selector : String)
    (hoperand : (evaluate parties ctx operand).Follows R) :
    (evaluate parties ctx (.select operand selector)).Follows R := by
  rw [evaluate.eq_def]
  dsimp only
  split
  · exact .fail h _
  · -- The test packages of a name are loaded, those of another operand looked up again.
    split
    · refine .bind h (follows_lookup? h _) fun bound => ?_
      cases bound with
      | some a => exact follows_testsOfSet h _ a
      | none => exact follows_testsOfName h _ _
    · exact .bind h hoperand fun a => follows_testsOfSet h _ a
  · exact .bind h hoperand fun a => .bind h (follows_catalog h) fun _ => .pure h _

mutual

/-- A relation that holds over every step holds over every evaluation. -/
theorem evaluate_follows (h : parties.Carries names R) : ∀ e : Expr,
    (∀ name ∈ e.assignedNames, name ∈ names) → ∀ ctx, (evaluate parties ctx e).Follows R
  | .absent => fun _ ctx => by
      unfold evaluate
      exact .fail h _
  | .package name => fun _ ctx => by
      unfold evaluate
      refine .bind h (follows_lookup? h name) fun bound => ?_
      cases bound with
      | some a => exact .pure h a
      | none => exact follows_loadRoots h _ _
  | .sequence statements => fun hnames ctx => by
      have hall := forall_evaluate_follows h statements hnames
      unfold evaluate
      exact evaluateLast_follows h (fun e he => hall e he ctx) .empty
  | .assign name value => fun hnames ctx => by
      rw [Expr.assignedNames, List.forall_mem_cons] at hnames
      have hvalue := evaluate_follows h value hnames.2 ctx
      unfold evaluate
      exact .bind h hvalue fun a =>
        .bind h (follows_bindVariable h hnames.1 a) fun _ => .pure h a
  | .call func args => fun hnames _ =>
      evaluate_call_follows h func (forall_evaluate_follows h args hnames)
  | .select operand selector => fun hnames ctx =>
      evaluate_select_follows h selector (evaluate_follows h operand hnames ctx)

theorem forall_evaluate_follows (h : parties.Carries names R) : ∀ es : List Expr,
    (∀ name ∈ Expr.assignedNamesAll es, name ∈ names) →
      ∀ e ∈ es, ∀ ctx, (evaluate parties ctx e).Follows R
  | [] => fun _ _ he => absurd he List.not_mem_nil
  | e :: rest => fun hnames => by
      rw [Expr.assignedNamesAll, List.forall_mem_append] at hnames
      exact List.forall_mem_cons.2
        ⟨evaluate_follows h e hnames.1, forall_evaluate_follows h rest hnames.2⟩

end

end PackageAlgebra
