import PackageAlgebra.Calculator.Error
import PackageAlgebra.Load.Loader
import PackageAlgebra.Symbol.Oracle

/-!
# The State of a Calculation

What one part of a calculation leaves behind for the next.

The loader keeps what it has found out. The standard library is loaded at most
once, and the outcome stays, a failure as well as a set. Variables that a query
binds are seen by everything evaluated later. Each question to the loader and to
the oracle is written into a journal, failed ones included.

## Main definitions

* `Calculator`: The parties to a calculation.
* `CalcState`: What a calculation leaves behind.
* `Calc`: A calculation.
* `Calc.loadNodes`: Ask the loader.
* `Calc.stdPackages`: The standard library.
* `Calc.bindVariable`: Bind a variable that is not bound yet.
-/

namespace PackageAlgebra

/-- The parties to a calculation. -/
structure Calculator (σ ρ : Type) where
  -- Where packages come from.
  loader : Loader σ ρ
  -- Who knows their symbols, if anybody.
  oracle : Option (Oracle σ) := none
  -- The keys that are variables of the environment.
  envKeys : List String := defaultEnvKeys

/-- A question to the loader. -/
structure LoadCall where
  -- The patterns.
  patterns : List String
  -- Whether tests were wanted.
  tests : Bool
  -- The active tags.
  tags : List String
  -- The variables of the environment.
  env : EntryList
  deriving DecidableEq

/-- What a calculation leaves behind. -/
structure CalcState (σ ρ : Type) where
  -- The state of the loader.
  loader : σ
  -- The outcome of loading the standard library, once it has been tried.
  std : Option (Except LoadError (PackageSet ρ)) := none
  -- The variables.
  bindings : OrderedMap String (PackageSet ρ) := .empty
  -- The questions to the loader, in order.
  journal : List LoadCall := []
  -- The questions to the oracle, in order.
  asked : List (List String) := []

/-- Write a question to the loader down. -/
def CalcState.record {σ ρ : Type} (s : CalcState σ ρ) (call : LoadCall) : CalcState σ ρ :=
  { s with journal := s.journal ++ [call] }

/-- A calculation: it takes the state along and may fail. -/
abbrev Calc (σ ρ : Type) := ExceptT Failure (StateM (CalcState σ ρ))

namespace Calc

variable {σ ρ : Type}

/-- A calculation that fails with an error. -/
def fail {α : Type} (e : CalcError) : Calc σ ρ α := throw (.error e)

/-- A calculation whose error is an outcome like any other. A fault still ends
    it. -/
def attempt {α : Type} (c : Calc σ ρ α) : Calc σ ρ (Except CalcError α) := fun s =>
  match c s with
  | (.ok a, s) => (.ok (.ok a), s)
  | (.error (.error e), s) => (.ok (.error e), s)
  | (.error (.fault f), s) => (.error (.fault f), s)

/-- Ask the loader, and write the question down. -/
def loadNodes (parties : Calculator σ ρ) (config : LoadConfig) (patterns : List String) :
    Calc σ ρ (List (Node ρ)) := fun s =>
  let s := s.record { patterns, tests := config.tests, tags := config.tags, env := config.env }
  match parties.loader.load config patterns s.loader with
  | (.ok roots, t) => (.ok roots, { s with loader := t })
  | (.error e, t) => (.error (.error (.load e)), { s with loader := t })

/-- The set of exactly the packages that patterns stand for. -/
def loadRoots (parties : Calculator σ ρ) (config : LoadConfig) (patterns : List String) :
    Calc σ ρ (PackageSet ρ) := do
  return .ofRoots (← loadNodes parties config patterns)

/-- The nodes that references lead to, as far as is known now. -/
def catalog (parties : Calculator σ ρ) : Calc σ ρ (Catalog ρ) := do
  return parties.loader.catalog (← get).loader

/-- Load the standard library, with everything that it imports. -/
def loadStd (parties : Calculator σ ρ) : Calc σ ρ (PackageSet ρ) := do
  let roots ← loadNodes parties { tests := true } [stdPattern]
  return .ofClosure (← catalog parties) roots

/-- The outcome of loading the standard library, from the first time on. -/
def stdOutcome (parties : Calculator σ ρ) : Calc σ ρ (Except LoadError (PackageSet ρ)) := do
  match (← get).std with
  | some outcome => return outcome
  | none =>
    let outcome : Except LoadError (PackageSet ρ) ←
      match ← attempt (loadStd parties) with
      | .ok a => pure (.ok a)
      | .error (.load e) => pure (.error e)
      | .error e => fail e
    modify fun s => { s with std := some outcome }
    return outcome

/-- The standard library. -/
def stdPackages (parties : Calculator σ ρ) : Calc σ ρ (PackageSet ρ) := do
  match ← stdOutcome parties with
  | .ok a => return a
  | .error e => fail (.load e)

/-- Whether a package is in the standard library. -/
def isStd (parties : Calculator σ ρ) (id : String) : Calc σ ρ Bool := do
  return (← stdPackages parties).contains id

/-- A set without the packages of the standard library. -/
def withoutStd (parties : Calculator σ ρ) (a : PackageSet ρ) : Calc σ ρ (PackageSet ρ) := do
  return a.subtract (← stdPackages parties)

/-- The value of a variable, if it is bound. -/
def lookup? (name : String) : Calc σ ρ (Option (PackageSet ρ)) := do
  return (← get).bindings.get? name

/-- Bind a variable that is not bound yet. -/
def bindVariable (name : String) (value : PackageSet ρ) : Calc σ ρ Unit := do
  if ((← get).bindings.get? name).isSome then fail (.eval (.variableExists name))
  else modify fun s => { s with bindings := s.bindings.insert name value }

/-- Ask an oracle, and write the question down. -/
def askOracle (oracle : Oracle σ) (config : LoadConfig) (ids : List String) :
    Calc σ ρ SymbolGraph := fun s =>
  let s := { s with asked := s.asked ++ [ids] }
  match oracle.symbolGraph config ids s.loader with
  | (.ok g, t) => (.ok g, { s with loader := t })
  | (.error e, t) => (.error e, { s with loader := t })

/-- The members of a set that keep unused methods alive. Nothing is asked about
    the empty set. -/
def deadcode (parties : Calculator σ ρ) (config : LoadConfig) (a : PackageSet ρ) :
    Calc σ ρ (PackageSet ρ) := do
  match parties.oracle with
  | none => fail (.eval .noOracle)
  | some oracle =>
    if oracle.version ≠ supportedVersion then fail (.eval (.oracleVersion oracle.version))
    else if a.isEmpty then return .empty
    else return a.keptAlive (← askOracle oracle config a.sortedIds)

end Calc

end PackageAlgebra
