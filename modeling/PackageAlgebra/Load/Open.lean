import PackageAlgebra.Calculator.Evaluate
import PackageAlgebra.Load.FromRecords
import PackageAlgebra.Load.FromSource
import PackageAlgebra.Load.StandardLibrary
import PackageAlgebra.Settings
import PackageAlgebra.Snapshot.File
import PackageAlgebra.Symbol.CommandOracle
import PackageAlgebra.Symbol.SourceOracle

/-!
# Opening a Calculator

A calculator over a snapshot file or over a source tree.

A snapshot comes before a source tree, and what a request names before the settings.
Symbols come from the command of the settings; without one, those of a source tree come
from its files, and those of a snapshot from nobody. The programs that a command may name
are given.

## Main definitions

* `OpenCalculator`: A calculator ready for use.
* `openCalculator`: The calculator that a request asks for.
* `OpenCalculator.ask`: What a calculation with it gives.
* `askFor`: What a calculation gives with the calculator that a request asks for.

## Theorems

* `Settings.eq_commandOracle`: The oracle that the settings name.
-/

namespace PackageAlgebra

/-- A calculator ready for use. -/
structure OpenCalculator where
  -- What its loader keeps.
  State : Type
  -- The parties.
  parties : Calculator State NodeRef
  -- What its loader keeps at first.
  initial : State
  -- Whether the standard library is loaded beforehand.
  prefetchStd : Bool

namespace OpenCalculator

/-- What a calculation gives. The outcome of loading the standard library beforehand is
    kept for when it is needed. -/
def ask {α : Type} (o : OpenCalculator) (c : Calculator o.State NodeRef → Calc o.State NodeRef α) :
    Except Failure α :=
  let prepared : Calc o.State NodeRef α := do
    if o.prefetchStd then
      let _ ← Calc.stdOutcome o.parties
    c o.parties
  (prepared { loader := o.initial }).1

end OpenCalculator

variable [Programs]

/-- The oracle that the settings name, if they name one. -/
def Settings.oracle? {σ : Type} (settings : Settings) : Option (Oracle σ) :=
  if settings.deadcodeCommand.isEmpty then none
  else some (commandOracle settings.deadcodeCommand Dump.reflectMethod)

/-- If the settings name an oracle, it runs their command. -/
theorem Settings.eq_commandOracle {σ : Type} {settings : Settings} {oracle : Oracle σ}
    (h : settings.oracle? = some oracle) :
    oracle = commandOracle settings.deadcodeCommand Dump.reflectMethod := by
  unfold Settings.oracle? at h
  split at h
  · cases h
  · exact (Option.some.inj h).symm

/-- The calculator over the records of a snapshot. -/
def Settings.overRecords (settings : Settings) (records : List PackageRecord) : OpenCalculator where
  State := UniverseTable
  parties := { loader := recordLoader records
               oracle := settings.oracle?
               envKeys := settings.envKeys }
  initial := .empty
  prefetchStd := settings.prefetchStd

/-- The calculator over a source tree. -/
def Settings.overSource (settings : Settings) (tree : SourceTree) : OpenCalculator where
  State := SourceState
  parties := { loader := sourceLoader tree
               oracle := settings.oracle? <|> some (sourceOracle tree.files (sourceLoader tree))
               envKeys := settings.envKeys }
  initial := {}
  prefetchStd := settings.prefetchStd

/-- The calculator that a request asks for, by a root or by the path of a snapshot. -/
def openCalculator (settings : Settings) (files : FileSystem) (root snapshot : Option String) :
    Except Failure OpenCalculator :=
  match snapshot <|> settings.snapshot with
  | some path =>
    if path = "" then fromSource else (Snapshot.ofFile files path).map settings.overRecords
  | none => fromSource
where
  -- The calculator over the source tree.
  fromSource : Except Failure OpenCalculator :=
    .ok (settings.overSource ⟨files, root.getD settings.root, standardLibrary⟩)

/-- What a calculation gives with the calculator that a request asks for. -/
def askFor {α : Type} (settings : Settings) (files : FileSystem) (root snapshot : Option String)
    (c : {σ : Type} → Calculator σ NodeRef → Calc σ NodeRef α) : Except Failure α :=
  match openCalculator settings files root snapshot with
  | .error e => .error e
  | .ok o => o.ask c

end PackageAlgebra
