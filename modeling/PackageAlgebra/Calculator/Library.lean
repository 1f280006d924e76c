import PackageAlgebra.Calculator.State

/-!
# Libraries

A part of what a loader can load, loaded once for everybody who needs it.

A library is known by a pattern. It is loaded when it is first needed, or beforehand in the
background, and whoever needs it meanwhile waits. What it gives is promised in a slot that all
calls share: the first call to find the slot empty puts a promise there, and only the call that
holds the lock may look at the slot or write into it. A call that needs the library at once keeps
the lock until the promise is kept; one that asks for it beforehand leaves the promise to a
worker, which may set to work before the promise is in the slot.

Nothing is said about who goes next. A state holds the calls in the order of their arrival, each
with the point that it has reached, and a schedule names the one that moves on. In between anybody
may use the loader for something else, and change a set that a call has given away. Sets are
written in place, so they are kept under addresses.

A calculation waits for the library before it goes on, so in `Calc.stdOutcome` only the outcome is
left of all this.

## Main definitions

* `Library`: A part of what a loader can load.
* `Calculator.library`: The standard library.
* `Library.load`: What a loader gives for a library.
* `Library.Call`, `Library.Phase`, `Library.Answer`: What is asked of a library, how far a call has
  come, and what it is told.
* `Library.Promise`: What is known of a load.
* `Library.State`: A library in use.
* `Library.move?`: The next move of a call.
* `Library.serve?`: The next move of whoever keeps a promise.
* `Library.step?`, `Library.run?`: What a schedule makes of a state.
-/

namespace PackageAlgebra

/-- A part of what a loader can load. -/
structure Library (σ ρ : Type) where
  -- Where its packages come from.
  loader : Loader σ ρ
  -- What its packages are called.
  pattern : String := stdPattern

/-- The standard library of a calculator. -/
def Calculator.library {σ ρ : Type} (parties : Calculator σ ρ) : Library σ ρ :=
  { loader := parties.loader }

namespace Library

variable {σ ρ : Type}

/-- What a load gives: a set, or the reason why there is none. -/
abbrev Outcome (ρ : Type) := Except LoadError (PackageSet ρ)

/-- What the loader gives for a library, with everything that is imported. -/
def load (lib : Library σ ρ) (t : σ) : Outcome ρ × σ :=
  match lib.loader.load { tests := true } [lib.pattern] t with
  | (.ok roots, t) => (.ok (.ofClosure (lib.loader.catalog t) roots), t)
  | (.error e, t) => (.error e, t)

/-- The question to the loader that loads a library. -/
def question (lib : Library σ ρ) : LoadCall :=
  { patterns := [lib.pattern], tests := true, tags := [], env := [] }

/-- What is asked of a library. -/
inductive Call
  -- To be loaded beforehand.
  | prefetch
  -- Its packages.
  | get
  -- Whether a package is one of its own.
  | isMember (id : String)
  deriving DecidableEq

/-- What a call is told. -/
inductive Answer (ρ : Type)
  -- That the library has been seen to.
  | done
  -- Where a set is that the caller may keep, with what it holds when it is given.
  | set (address : Nat) (members : PackageSet ρ)
  -- Whether the package is one.
  | member (found : Bool)
  -- Why the library cannot be loaded.
  | failed (e : LoadError)

/-- How far a call has come. Promises are named by their place among all of them. -/
inductive Phase (ρ : Type)
  -- It wants the lock.
  | entering
  -- It has the lock, and has not looked at the slot.
  | inside
  -- It has found the slot empty.
  | missing
  -- It has left a promise to a worker, and not put it into the slot yet.
  | made (k : Nat)
  -- It keeps the promise itself.
  | loading (k : Nat)
  -- It knows the promise in the slot, and still has the lock.
  | leaving (k : Nat)
  -- It knows the promise, and wants to know what it gives.
  | waiting (k : Nat)
  -- It has its answer.
  | answered (a : Answer ρ)

/-- What is known of a load. -/
inductive Promise (ρ : Type)
  -- Nobody has asked the loader.
  | pending
  -- The loader has answered whoever asked it.
  | loaded (outcome : Outcome ρ)
  -- Everybody may know: the address of the set, or why there is none.
  | kept (outcome : Except LoadError Nat)

/-- A library in use. -/
structure State (σ ρ : Type) where
  -- The state of the loader.
  loader : σ
  -- The call that holds the lock.
  lock : Option Nat := none
  -- The promise that calls share.
  slot : Option Nat := none
  -- All promises.
  promises : List (Promise ρ) := []
  -- All calls, in the order of their arrival.
  calls : List (Call × Phase ρ) := []
  -- All sets, by their addresses.
  sets : List (PackageSet ρ) := []
  -- The questions to the loader on behalf of the library, each with what it has led to.
  asked : List (LoadCall × Outcome ρ) := []

/-- The address of the set that a call has given away. -/
def Phase.address? : Phase ρ → Option Nat
  | .answered (.set address _) => some address
  | _ => none

namespace State

/-- The addresses of the sets that calls have given away. -/
def given (s : State σ ρ) : List Nat := s.calls.filterMap fun c => c.2.address?

/-- A call comes to another point. -/
def advance (s : State σ ρ) (i : Nat) (c : Call) (phase : Phase ρ) : State σ ρ :=
  { s with calls := s.calls.set i (c, phase) }

/-- What a promise gives, once it is kept. -/
def promised? (s : State σ ρ) (k : Nat) : Option (Outcome ρ) :=
  match s.promises[k]? with
  | some (.kept (.ok address)) => (s.sets[address]?).map .ok
  | some (.kept (.error e)) => some (.error e)
  | _ => none

end State

/-- The next move of a call, unless it has to wait. -/
def move? (i : Nat) (s : State σ ρ) : Option (State σ ρ) := do
  let (c, phase) ← s.calls[i]?
  match phase with
  | .entering =>
    if s.lock.isNone then some ({ s with lock := some i }.advance i c .inside) else none
  | .inside =>
    match s.slot with
    | some k => some (s.advance i c (.leaving k))
    | none => some (s.advance i c .missing)
  | .missing =>
    let k := s.promises.length
    let s : State σ ρ := { s with promises := s.promises ++ [.pending] }
    if c = .prefetch then some (s.advance i c (.made k))
    else some ({ s with slot := some k }.advance i c (.loading k))
  | .made k => some ({ s with slot := some k }.advance i c (.leaving k))
  | .loading k => (s.promised? k).map fun _ => s.advance i c (.leaving k)
  | .leaving k => some ({ s with lock := none }.advance i c (.waiting k))
  | .waiting k =>
    match c, s.promised? k with
    -- Nobody waits for what was to be loaded beforehand.
    | .prefetch, _ => some (s.advance i c (.answered .done))
    -- A caller gets a copy of the set.
    | .get, some (.ok members) =>
      some ({ s with sets := s.sets ++ [members] }.advance i c
        (.answered (.set s.sets.length members)))
    | .isMember id, some (.ok members) =>
      some (s.advance i c (.answered (.member (members.contains id))))
    | _, some (.error e) => some (s.advance i c (.answered (.failed e)))
    | _, none => none
  | .answered _ => none

/-- The next move of whoever keeps a promise, unless it is kept. -/
def serve? (lib : Library σ ρ) (k : Nat) (s : State σ ρ) : Option (State σ ρ) := do
  match ← s.promises[k]? with
  | .pending =>
    let (outcome, t) := lib.load s.loader
    some { s with loader := t
                  promises := s.promises.set k (.loaded outcome)
                  asked := s.asked ++ [(lib.question, outcome)] }
  | .loaded (.ok members) =>
    some { s with promises := s.promises.set k (.kept (.ok s.sets.length))
                  sets := s.sets ++ [members] }
  | .loaded (.error e) => some { s with promises := s.promises.set k (.kept (.error e)) }
  | .kept _ => none

/-- What happens next. -/
inductive Action (σ ρ : Type)
  -- A call arrives.
  | call (c : Call)
  -- A call moves on.
  | move (i : Nat)
  -- Whoever keeps a promise moves on.
  | serve (k : Nat)
  -- Somebody uses the loader for something else.
  | use (t : σ)
  -- A caller changes a set that it was given.
  | change (address : Nat) (members : PackageSet ρ)

/-- A state after what happens next, if it can happen. -/
def step? (lib : Library σ ρ) (s : State σ ρ) : Action σ ρ → Option (State σ ρ)
  | .call c => some { s with calls := s.calls ++ [(c, .entering)] }
  | .move i => move? i s
  | .serve k => lib.serve? k s
  | .use t => some { s with loader := t }
  | .change address members =>
    if address ∈ s.given then some { s with sets := s.sets.set address members } else none

/-- A state after a schedule, if all of it can happen. -/
def run? (lib : Library σ ρ) : List (Action σ ρ) → State σ ρ → Option (State σ ρ)
  | [], s => some s
  | a :: rest, s => (lib.step? s a).bind (lib.run? rest)

end Library

end PackageAlgebra
