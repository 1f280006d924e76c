import PackageAlgebra.Proofs.Calculator.Steps
import PackageAlgebra.Proofs.Context.Sharing

/-!
# Evaluation in Shared Contexts

Evaluation with lists that are written in place.

`evaluate` hands a context of values to the argument of a context function, and nothing that
happens there can change the context of anybody else. `evaluateShared` does the same work with
contexts that are addresses: a context function copies the lists of its context, sets its key
in the copy, and everything else reads the lists that are kept at the moment. Here it is a
theorem that nobody sees the writes of another, and it holds because an evaluation adds lists
and never changes those that were there, whether it ends with a value or with a failure.

## Main definitions

* `SharedCalc`: A calculation that keeps lists of entries beside its state.
* `evaluateShared`: The set that an expression stands for in a shared context.
* `SharedCalc.Agrees`: A calculation does what another one does, and only adds lists.

## Theorems

* `SharedCalc.Agrees.bind`, `SharedCalc.Agrees.attempt`: Calculations put together.
* `SharedCalc.agrees_inner`: What is set for an argument is seen there alone.
* `evaluateShared_agrees`: Evaluation in a shared context is evaluation.
-/

namespace PackageAlgebra

variable {σ ρ α β : Type}

/-- What a calculation leaves behind, together with the lists that contexts keep. -/
structure SharedState (σ ρ : Type) where
  -- What it leaves behind.
  state : CalcState σ ρ
  -- The lists, at their addresses.
  lists : List EntryList

/-- A calculation that keeps lists of entries beside its state. -/
abbrev SharedCalc (σ ρ : Type) := ExceptT Failure (StateM (SharedState σ ρ))

namespace SharedCalc

/-- A calculation in the context that the lists show at the moment. -/
def inView (c : SharedContext) (f : Context → Calc σ ρ α) : SharedCalc σ ρ α := fun s =>
  let (outcome, t) := f (c.view s.lists) s.state
  (outcome, { s with state := t })

/-- A calculation whose error is an outcome like any other. A fault still ends it. -/
def attempt (x : SharedCalc σ ρ α) : SharedCalc σ ρ (Except CalcError α) := fun s =>
  match x s with
  | (.ok a, s) => (.ok (.ok a), s)
  | (.error (.error e), s) => (.ok (.error e), s)
  | (.error (.fault f), s) => (.error (.fault f), s)

/-- The context for the argument of a context function: a copy in which a key is set. -/
def inner (c : SharedContext) (key value : String) : SharedCalc σ ρ SharedContext := fun s =>
  let (copy, lists) := c.clone s.lists
  (.ok copy, { s with lists := copy.write key value lists })

end SharedCalc

open SharedCalc

mutual

/-- The set that an expression stands for in a shared context. -/
def evaluateShared (parties : Calculator σ ρ) (c : SharedContext) :
    Expr → SharedCalc σ ρ (PackageSet ρ)
  | .absent => inView c fun _ => Calc.fail (.eval .emptyExpression)
  | .sequence statements => evaluateSharedLast parties c .empty statements
  | .assign name value => do
    let a ← evaluateShared parties c value
    inView c fun _ => do
      Calc.bindVariable name a
      return a
  | .package name => inView c fun ctx => evaluate parties ctx (.package name)
  | .call func args =>
    if Expr.isSetting func then
      match args with
      | [arg] => do
        let copy ← inner c (splitEntry func).1 (splitEntry func).2
        evaluateShared parties copy arg
      | args => inView c fun _ => Calc.fail (.eval (.contextArguments args.length))
    else
      match SetFunction.ofName? (Text.lower func) with
      | none =>
        inView c fun _ => Calc.fail (.eval (.unknownFunction func (Expr.call func args).print))
      | some f =>
        if f.arity?.any (· ≠ args.length) then
          inView c fun _ => Calc.fail
            (.eval (.argumentCount func (f.arity?.getD 0) (Expr.call func args).print))
        else
          match func, bareNames? args with
          | "", some (name :: names) =>
            inView c fun ctx => evaluateGroup parties ctx (name :: names)
          | _, _ => do
            let each ← evaluateSharedEach parties c args
            inView c fun ctx =>
              if each.2.isEmpty then applyFunction parties ctx f each.1
              else Calc.fail (.combine each.2)
  | .select operand selector =>
    match Selection.ofName? (Combinator.ofText selector).2 with
    | none =>
      inView c fun _ =>
        Calc.fail (.eval (.unknownSelector selector (Expr.select operand selector).print))
    | some .test =>
      match operand with
      | .package id => inView c fun ctx => evaluate parties ctx (.select (.package id) selector)
      | operand => do
        let a ← evaluateShared parties c operand
        inView c fun ctx => testsOfSet parties ctx (Combinator.ofText selector).1 a
    | some selection => do
      let a ← evaluateShared parties c operand
      inView c fun _ => do
        return selection.apply (← Calc.catalog parties) (Combinator.ofText selector).1 a

/-- The value of the last statement of a list, the given one if it is empty. -/
def evaluateSharedLast (parties : Calculator σ ρ) (c : SharedContext) (last : PackageSet ρ) :
    List Expr → SharedCalc σ ρ (PackageSet ρ)
  | [] => return last
  | e :: rest => do
    let a ← evaluateShared parties c e
    evaluateSharedLast parties c a rest

/-- The sets of the operands that have one, and the errors of the others. -/
def evaluateSharedEach (parties : Calculator σ ρ) (c : SharedContext) :
    List Expr → SharedCalc σ ρ (List (PackageSet ρ) × List CalcError)
  | [] => return ([], [])
  | e :: rest => do
    let outcome ← attempt (evaluateShared parties c e)
    let (operands, errors) ← evaluateSharedEach parties c rest
    match outcome with
    | .ok a => return (a :: operands, errors)
    | .error e => return (operands, e :: errors)

end

namespace SharedCalc

/-- A calculation in a shared context does what another one does in the context that it shows,
    and only adds lists to those that are there. -/
def Agrees (c : SharedContext) (ctx : Context) (x : SharedCalc σ ρ α)
    (y : Calc σ ρ α) : Prop :=
  ∀ s : SharedState σ ρ, c.Kept s.lists → c.view s.lists = ctx →
    ∃ added, x s = ((y s.state).1, ⟨(y s.state).2, s.lists ++ added⟩)

variable {c : SharedContext} {ctx : Context}

/-! ### Calculations -/

theorem agrees_inView (f : Context → Calc σ ρ α) : (inView c f).Agrees c ctx (f ctx) := by
  intro s _ hview
  refine ⟨[], ?_⟩
  unfold inView
  rw [hview, List.append_nil]
  rfl

theorem Agrees.pure (a : α) :
    (Pure.pure a : SharedCalc σ ρ α).Agrees c ctx (Pure.pure a) :=
  agrees_inView fun _ => Pure.pure a

/-- What is done after a calculation sees the same context as that one. -/
theorem Agrees.bind {x : SharedCalc σ ρ α} {y : Calc σ ρ α} {f : α → SharedCalc σ ρ β}
    {g : α → Calc σ ρ β} (hx : x.Agrees c ctx y) (hf : ∀ a, (f a).Agrees c ctx (g a)) :
    (x >>= f).Agrees c ctx (y >>= g) := by
  intro s hkept hview
  rcases hx s hkept hview with ⟨added, hrun⟩
  rcases hy : y s.state with ⟨outcome | a, t⟩
  · rw [hy] at hrun
    exact ⟨added, by rw [Calc.bind_error hrun, Calc.bind_error hy]⟩
  · rw [hy] at hrun
    rcases hf a ⟨t, s.lists ++ added⟩ (hkept.append added)
      ((SharedContext.view_append hkept added).trans hview) with ⟨more, hrest⟩
    refine ⟨added ++ more, ?_⟩
    rw [Calc.bind_ok hrun, Calc.bind_ok hy, hrest, List.append_assoc]

theorem Agrees.attempt {x : SharedCalc σ ρ α} {y : Calc σ ρ α} (h : x.Agrees c ctx y) :
    (SharedCalc.attempt x).Agrees c ctx (Calc.attempt y) := by
  intro s hkept hview
  rcases h s hkept hview with ⟨added, hrun⟩
  refine ⟨added, ?_⟩
  unfold SharedCalc.attempt Calc.attempt
  rw [hrun]
  rcases y s.state with ⟨(e | f) | a, t⟩ <;> rfl

/-- What is set for an argument is seen there alone. -/
theorem agrees_inner (key value : String) {f : SharedContext → SharedCalc σ ρ α} {y : Calc σ ρ α}
    (hf : ∀ copy : SharedContext, (f copy).Agrees copy (ctx.assign key value) y) :
    (inner c key value >>= f).Agrees c ctx y := by
  intro s hkept hview
  rcases SharedContext.write_clone c s.lists key value with ⟨added, hwrite, hcopy, hassign⟩
  have hrun : (inner c key value : SharedCalc σ ρ SharedContext) s =
      (.ok (c.clone s.lists).1, ⟨s.state, s.lists ++ added⟩) := by
    unfold inner
    rw [← hwrite]
  rcases hf (c.clone s.lists).1 ⟨s.state, s.lists ++ added⟩ hcopy (hassign.trans (hview ▸ rfl))
    with ⟨more, hrest⟩
  refine ⟨added ++ more, ?_⟩
  rw [Calc.bind_ok hrun, hrest, List.append_assoc]

end SharedCalc

/-! ### Operands -/

variable {parties : Calculator σ ρ} {args : List Expr}

/-- An expression is evaluated in a shared context as it is in the context that it shows. -/
def EvaluatesShared (parties : Calculator σ ρ) (e : Expr) : Prop :=
  ∀ c ctx, (evaluateShared parties c e).Agrees c ctx (evaluate parties ctx e)

theorem evaluateSharedLast_agrees (hargs : ∀ arg ∈ args, EvaluatesShared parties arg)
    (last : PackageSet ρ) : (evaluateSharedLast parties c last args).Agrees c ctx
      (evaluateLast parties ctx last args) := by
  induction args generalizing last with
  | nil => exact .pure last
  | cons arg rest ih =>
      rw [List.forall_mem_cons] at hargs
      exact (hargs.1 c ctx).bind fun a => ih hargs.2 a

theorem evaluateSharedEach_agrees (hargs : ∀ arg ∈ args, EvaluatesShared parties arg) :
    (evaluateSharedEach parties c args).Agrees c ctx (evaluateEach parties ctx args) := by
  induction args with
  | nil => exact .pure _
  | cons arg rest ih =>
      rw [List.forall_mem_cons] at hargs
      refine (hargs.1 c ctx).attempt.bind fun outcome => (ih hargs.2).bind fun others => ?_
      cases outcome <;> exact .pure _

/-! ### Evaluation -/

/-- Names side by side are looked up and loaded together. -/
theorem evaluateShared_group {name : String} {names : List String}
    (h : bareNames? args = some (name :: names)) :
    evaluateShared parties c (.call "" args) =
      inView c fun ctx => evaluateGroup parties ctx (name :: names) := by
  have hsetting : ¬ Expr.isSetting "" = true := by decide
  have hjoin : SetFunction.ofName? (Text.lower "") = some (.join .union) := by decide
  unfold evaluateShared
  rw [if_neg hsetting, hjoin]
  simp only [SetFunction.arity?, Option.any_none, Bool.false_eq_true, if_false, h]

/-- Any other function is applied to its operands, if all of them have a value. -/
theorem evaluateShared_operands {func : String} {f : SetFunction}
    (hsetting : Expr.isSetting func = false) (hf : SetFunction.ofName? (Text.lower func) = some f)
    (hcount : ¬ f.arity?.any (· ≠ args.length) = true)
    (hgroup : func = "" → ∀ name names, bareNames? args ≠ some (name :: names)) :
    evaluateShared parties c (.call func args) = (do
      let each ← evaluateSharedEach parties c args
      inView c fun ctx =>
        if each.2.isEmpty then applyFunction parties ctx f each.1
        else Calc.fail (.combine each.2)) := by
  unfold evaluateShared
  rw [if_neg (Bool.eq_false_iff.1 hsetting), hf]
  simp only [if_neg hcount]
  split
  · next name names hnames => exact absurd hnames (hgroup rfl name names)
  · rfl

theorem evaluateShared_call_agrees (func : String)
    (hargs : ∀ arg ∈ args, EvaluatesShared parties arg) :
    EvaluatesShared parties (.call func args) := by
  intro c ctx
  by_cases hsetting : Expr.isSetting func = true
  · -- A context function evaluates its argument in a copy, if there is just one.
    unfold evaluateShared evaluate
    rw [if_pos hsetting, if_pos hsetting]
    rcases args with _ | ⟨arg, _ | ⟨second, rest⟩⟩
    · exact agrees_inView _
    · exact agrees_inner _ _ fun copy => hargs arg (List.mem_singleton_self arg) copy _
    · exact agrees_inView _
  rw [Bool.not_eq_true] at hsetting
  cases hf : SetFunction.ofName? (Text.lower func) with
  | none =>
      unfold evaluateShared evaluate
      rw [if_neg (Bool.eq_false_iff.1 hsetting), if_neg (Bool.eq_false_iff.1 hsetting), hf]
      exact agrees_inView _
  | some f =>
      by_cases hcount : f.arity?.any (· ≠ args.length) = true
      · unfold evaluateShared evaluate
        rw [if_neg (Bool.eq_false_iff.1 hsetting), if_neg (Bool.eq_false_iff.1 hsetting), hf]
        simp only [if_pos hcount]
        exact agrees_inView _
      by_cases hgroup : func = "" ∧ ∃ name names, bareNames? args = some (name :: names)
      · rcases hgroup with ⟨rfl, name, names, hnames⟩
        rw [evaluateShared_group hnames, evaluate_group hnames]
        exact agrees_inView _
      · have hnone : func = "" → ∀ name names, bareNames? args ≠ some (name :: names) :=
          fun hfunc name names hnames => hgroup ⟨hfunc, name, names, hnames⟩
        rw [evaluateShared_operands hsetting hf hcount hnone,
          evaluate_operands hsetting hf hcount hnone]
        exact (evaluateSharedEach_agrees hargs).bind fun each => agrees_inView _

theorem evaluateShared_select_agrees {operand : Expr} (selector : String)
    (hoperand : EvaluatesShared parties operand) :
    EvaluatesShared parties (.select operand selector) := by
  intro c ctx
  rw [evaluateShared.eq_def, evaluate.eq_def]
  dsimp only
  cases hselection : Selection.ofName? (Combinator.ofText selector).2 with
  | none => exact agrees_inView _
  | some selection =>
      cases selection with
      | test =>
          cases operand with
          | package name =>
              have hview : (inView c fun ctx =>
                  evaluate parties ctx (.select (.package name) selector)).Agrees c ctx
                    (evaluate parties ctx (.select (.package name) selector)) := agrees_inView _
              rw [evaluate.eq_def parties ctx] at hview
              simp only [hselection] at hview
              exact hview
          | _ => exact (hoperand c ctx).bind fun a => agrees_inView _
      | _ => exact (hoperand c ctx).bind fun a => agrees_inView _

mutual

/-- Evaluation in a shared context is evaluation. -/
theorem evaluateShared_agrees (parties : Calculator σ ρ) : ∀ e : Expr, EvaluatesShared parties e
  | .absent => fun _ _ => by
      unfold evaluateShared evaluate
      exact agrees_inView _
  | .package name => fun _ _ => by
      unfold evaluateShared
      exact agrees_inView _
  | .sequence statements => fun _ _ => by
      unfold evaluateShared evaluate
      exact evaluateSharedLast_agrees (forall_evaluateShared_agrees parties statements) .empty
  | .assign name value => fun c ctx => by
      have hvalue := evaluateShared_agrees parties value c ctx
      unfold evaluateShared evaluate
      exact hvalue.bind fun a => agrees_inView _
  | .call func args =>
      evaluateShared_call_agrees func (forall_evaluateShared_agrees parties args)
  | .select operand selector =>
      evaluateShared_select_agrees selector (evaluateShared_agrees parties operand)

theorem forall_evaluateShared_agrees (parties : Calculator σ ρ) :
    ∀ es : List Expr, ∀ e ∈ es, EvaluatesShared parties e
  | [] => fun _ he => absurd he List.not_mem_nil
  | e :: rest => List.forall_mem_cons.2
      ⟨evaluateShared_agrees parties e, forall_evaluateShared_agrees parties rest⟩

end

end PackageAlgebra
