import PackageAlgebra.OrderedMap
import PackageAlgebra.Symbol.Dump
import PackageAlgebra.Symbol.Oracle
import PackageAlgebra.Text.Blank

/-!
# Symbols from a Command

An oracle that runs a program and reads the dump that it writes.

The program gets the ids of the packages after its own arguments, and the variables of
the environment in force. The dump is what it writes as complaints. A program that
cannot be started, or that ends with an error, is an error of the query; an environment
or an argument that no program can be given is a fault.

Which programs there are, and what they do, is not known here. It is a parameter of
everything that may run one.

## Main definitions

* `Programs`: What the programs write as complaints, and how they end.
* `dumpText`: What a command wrote.
* `commandOracle`: The oracle.
-/

namespace PackageAlgebra

/-- How a program ended, and what it complained about. -/
structure Outcome where
  -- How it ended; zero is success, and a signal that ended it is negative.
  code : Int
  -- What it complained about.
  complaints : String

/-- The programs that there are. -/
class Programs where
  -- What the program of a name does, given its arguments and the variables of the
  -- environment; none if there is no such program.
  run? : String → List String → OrderedMap String String → Option Outcome

namespace Programs

/-- Why a program with a name cannot be started. -/
def missingReason (name : String) : String :=
  if name = "" then "[Errno 13] Permission denied: ''" else FileError.missing.message name

/-- Why no program can be given words and variables, if none can. -/
def fault? (words : List String) (bindings : List (String × String)) : Option Fault :=
  if bindings.any fun v => v.1.toList.contains '=' then some .illegalVariable
  else if words.any (fun w => w.toList.contains '\x00')
      || bindings.any (fun v => v.1.toList.contains '\x00' || v.2.toList.contains '\x00') then
    some .nullByte
  else none

end Programs

section

variable [Programs]

/-- What a program wrote as complaints, given the command, the ids after it and the
    environment. -/
def dumpText (command ids : List String) (env : EntryList) : Except Failure String :=
  let bindings := env.map splitEntry
  match command, command ++ ids with
  | _, [] => .error (.fault .noCommand)
  | command, name :: args =>
    match Programs.fault? (name :: args) bindings with
    | some f => .error (.fault f)
    | none =>
      match Programs.run? name args (.ofList bindings), command with
      | none, [] => .error (.fault .noCommand)
      | none, program :: _ =>
        .error (.error (.eval (.commandMissing program (Programs.missingReason name))))
      | some outcome, _ =>
        let complaints := String.ofList (Text.evenLines outcome.complaints.toList)
        if outcome.code = 0 then .ok complaints
        else .error (.error (.eval
          (.commandFailed (Text.join " " command) outcome.code complaints)))

/-- The oracle that runs a command. -/
def commandOracle {σ : Type} (command : List String) (marker : String) : Oracle σ where
  version := supportedVersion
  symbolGraph config ids s :=
    ((dumpText command ids config.env).map fun text => Dump.read (Text.lines text) marker, s)

end

end PackageAlgebra
