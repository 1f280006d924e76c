import PackageAlgebra.Calculator.Functions
import PackageAlgebra.Calculator.State

/-!
# Evaluation

The package set that an expression stands for.

Evaluation goes through an expression from left to right. A context function
changes the context for its argument only; a variable, once bound, is seen by
all that follows. The operands of a function are all evaluated even if one of
them fails, and their failures are reported together. Names side by side are
loaded in one question.

Test packages exist only where they are asked for, so the selector for them
loads again: a bare name is loaded directly with or without tests, and any other
operand is evaluated first and its members are looked up again with tests on.

## Main definitions

* `evaluate`: The set that an expression stands for.
* `calculate`: The set that the words of a query stand for.
-/

namespace PackageAlgebra

variable {σ ρ : Type}

/-- The names in a list of operands, if all of them are bare names. -/
def bareNames? : List Expr → Option (List String)
  | [] => some []
  | .package name :: rest => (bareNames? rest).map (name :: ·)
  | _ :: _ => none

/-- The sets of names side by side: bound variables first, and all other names in
    one question to the loader. -/
def evaluateGroup (parties : Calculator σ ρ) (ctx : Context) (names : List String) :
    Calc σ ρ (PackageSet ρ) := do
  let bindings := (← get).bindings
  let values := names.filterMap bindings.get?
  let patterns := names.filter fun n => !bindings.contains n
  if patterns.isEmpty then return .unionAll values
  else return .unionAll (values ++ [← Calc.loadRoots parties ctx.config patterns])

/-- The test packages of a bare name under a combinator. -/
def testsOfName (parties : Calculator σ ρ) (ctx : Context) (name : String) :
    Combinator → Calc σ ρ (PackageSet ρ)
  | .keep => do return (← Calc.loadRoots parties { ctx.config with tests := true } [name]).tests
  | .add => Calc.loadRoots parties { ctx.config with tests := true } [name]
  | .remove => Calc.loadRoots parties { ctx.config with tests := false } [name]

/-- The test packages of the members of a set under a combinator. -/
def testsOfSet (parties : Calculator σ ρ) (ctx : Context) (c : Combinator) (a : PackageSet ρ) :
    Calc σ ρ (PackageSet ρ) := do
  if a.isEmpty then return c.apply a .empty
  else
    let found ← Calc.loadRoots parties { ctx.config with tests := true } a.sortedIds
    return c.apply a found.tests

/-- What a function makes of the sets of its operands. -/
def applyFunction (parties : Calculator σ ρ) (ctx : Context) (f : SetFunction)
    (operands : List (PackageSet ρ)) : Calc σ ρ (PackageSet ρ) := do
  match f, operands with
  | .join op, as => return op.applyAll as
  | .reach, [a, b] => return a.reach (← Calc.catalog parties) b
  | .incoming, [a, b] => return a.incoming (← Calc.catalog parties) b
  | .transitive, [a] => return a.transitive (← Calc.catalog parties)
  | .deadcode, [a] => Calc.deadcode parties ctx.config a
  | _, _ => return .empty

mutual

/-- The set that an expression stands for. -/
def evaluate (parties : Calculator σ ρ) (ctx : Context) : Expr → Calc σ ρ (PackageSet ρ)
  | .absent => Calc.fail (.eval .emptyExpression)
  | .sequence statements => evaluateLast parties ctx .empty statements
  | .assign name value => do
    let a ← evaluate parties ctx value
    Calc.bindVariable name a
    return a
  | .package name => do
    match ← Calc.lookup? name with
    | some a => return a
    | none => Calc.loadRoots parties ctx.config [name]
  | .call func args =>
    if Expr.isSetting func then
      match args with
      | [arg] =>
        evaluate parties (ctx.assign (splitEntry func).1 (splitEntry func).2) arg
      | args => Calc.fail (.eval (.contextArguments args.length))
    else
      match SetFunction.ofName? (Text.lower func) with
      | none => Calc.fail (.eval (.unknownFunction func (Expr.call func args).print))
      | some f =>
        if f.arity?.any (· ≠ args.length) then
          Calc.fail (.eval (.argumentCount func (f.arity?.getD 0) (Expr.call func args).print))
        else
          match func, bareNames? args with
          | "", some (name :: names) => evaluateGroup parties ctx (name :: names)
          | _, _ => do
            let (operands, errors) ← evaluateEach parties ctx args
            if errors.isEmpty then applyFunction parties ctx f operands
            else Calc.fail (.combine errors)
  | .select operand selector => do
    let (c, name) := Combinator.ofText selector
    match Selection.ofName? name with
    | none => Calc.fail (.eval (.unknownSelector selector (Expr.select operand selector).print))
    | some .test =>
      match operand with
      | .package id =>
        match ← Calc.lookup? id with
        | some a => testsOfSet parties ctx c a
        | none => testsOfName parties ctx id c
      | operand => testsOfSet parties ctx c (← evaluate parties ctx operand)
    | some selection =>
      let a ← evaluate parties ctx operand
      return selection.apply (← Calc.catalog parties) c a

/-- The value of the last statement of a list, the given one if it is empty. -/
def evaluateLast (parties : Calculator σ ρ) (ctx : Context) (last : PackageSet ρ) :
    List Expr → Calc σ ρ (PackageSet ρ)
  | [] => return last
  | e :: rest => do
    let a ← evaluate parties ctx e
    evaluateLast parties ctx a rest

/-- The sets of the operands that have one, and the errors of the others. -/
def evaluateEach (parties : Calculator σ ρ) (ctx : Context) :
    List Expr → Calc σ ρ (List (PackageSet ρ) × List CalcError)
  | [] => return ([], [])
  | e :: rest => do
    let outcome ← Calc.attempt (evaluate parties ctx e)
    let (operands, errors) ← evaluateEach parties ctx rest
    match outcome with
    | .ok a => return (a :: operands, errors)
    | .error e => return (operands, e :: errors)

end

/-- The set that a query stands for. Where nothing is asked, the default pattern of
    the loader is. -/
def calculate (parties : Calculator σ ρ) (ctx : Context) (q : QueryText) :
    Calc σ ρ (PackageSet ρ) :=
  match (q.orPattern parties.loader.defaultPattern).parse with
  | .error e => Calc.fail (.query e)
  | .ok none => Calc.fail (.eval .emptyExpression)
  | .ok (some e) => evaluate parties ctx e

/-- A new context of a calculator. -/
def Calculator.newContext (parties : Calculator σ ρ) (cancelled : Nat → Bool) : Context :=
  .make [] [] parties.envKeys cancelled

/-- The set that a query stands for in a new context. Its variables are its own, so they
    are gone afterwards. -/
def calculateAlone (parties : Calculator σ ρ) (cancelled : Nat → Bool) (q : QueryText) :
    Calc σ ρ (PackageSet ρ) := fun s =>
  let (outcome, t) :=
    calculate parties (parties.newContext cancelled) q { s with bindings := .empty }
  (outcome, { t with bindings := s.bindings })

end PackageAlgebra
