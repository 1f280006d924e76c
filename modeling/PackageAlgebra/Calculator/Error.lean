import PackageAlgebra.Load.Error
import PackageAlgebra.Query.Parser

/-!
# Calculation Errors

Why a query has no value.

A query may fail to be read, to be evaluated or to be loaded. Failures of
sibling operands are reported together. A fault is of another kind: it comes
from running a program outside the calculator, it is nobody's answer to a query,
and it ends an evaluation at once instead of waiting for the siblings.

## Main definitions

* `EvalError`: Why an expression has no value.
* `CalcError`: Why a query has no value.
* `CalcError.combine`: The failures of siblings as one error.
* `CalcError.flatten`: The single failures in an error.
* `Fault`: Why a program outside could not be run.
* `Failure`: An error or a fault.
-/

namespace PackageAlgebra

/-- Why an expression has no value. -/
inductive EvalError
  -- There is no expression.
  | emptyExpression
  -- A variable is bound a second time.
  | variableExists (name : String)
  -- A context function has not one argument but another number of them.
  | contextArguments (found : Nat)
  -- A function has a wrong number of arguments.
  | argumentCount (func : String) (expected : Nat) (call : String)
  -- No function has the name.
  | unknownFunction (func call : String)
  -- No selector has the name.
  | unknownSelector (selector selection : String)
  -- Symbols are needed and nobody knows them.
  | noOracle
  -- The symbols come in a form of an unknown version.
  | oracleVersion (version : Int)
  -- The command that knows the symbols cannot be started.
  | commandMissing (program reason : String)
  -- The command that knows the symbols has failed.
  | commandFailed (command : String) (code : Int) (complaint : String)
  deriving DecidableEq

/-- An error in words. -/
def EvalError.message : EvalError → String
  | emptyExpression => "empty expression"
  | variableExists name => "variable " ++ Text.quote name ++ " already exists"
  | contextArguments found => "expected 1 argument found " ++ Text.decimalNat found
  | argumentCount func expected call =>
    func ++ " requires " ++
      (if expected = 1 then "one argument" else Text.decimalNat expected ++ " arguments") ++
      ": " ++ call
  | unknownFunction func call => "unknown func " ++ func ++ ": " ++ call
  | unknownSelector selector selection => "unknown selector " ++ selector ++ ": " ++ selection
  | noOracle => "deadcode requires a symbol oracle"
  | oracleVersion version => "unsupported deadcode oracle version " ++ Text.decimal version
  | commandMissing program reason => program ++ " failed: " ++ reason
  | commandFailed command code complaint =>
    command ++ " failed with exit code " ++ Text.decimal code ++ "\n" ++ complaint

/-- Why a query has no value. -/
inductive CalcError
  -- Its text cannot be read.
  | query (cause : QueryError)
  -- It cannot be evaluated.
  | eval (cause : EvalError)
  -- Its packages cannot be loaded.
  | load (cause : LoadError)
  -- Several of its parts have failed.
  | several (errors : List CalcError)

namespace CalcError

mutual

/-- An error in words. -/
def message : CalcError → String
  | query cause => cause.message
  | eval cause => cause.message
  | load cause => cause.message
  | several errors => "[" ++ Text.join "; " (messages errors) ++ "]"

/-- The errors of a list in words. -/
def messages : List CalcError → List String
  | [] => []
  | e :: rest => message e :: messages rest

end

/-- The failures of siblings as one error: a single one stands for itself. -/
def combine : List CalcError → CalcError
  | [e] => e
  | errors => several errors

mutual

/-- The single failures in an error, in order. -/
def flatten : CalcError → List CalcError
  | several errors => flattenAll errors
  | e => [e]

/-- The single failures in a list of errors, in order. -/
def flattenAll : List CalcError → List CalcError
  | [] => []
  | e :: rest => flatten e ++ flattenAll rest

end

end CalcError

/-- Why a program outside could not be run. -/
inductive Fault
  -- A word of its command has a zero byte.
  | nullByte
  -- A variable of its environment has no proper name.
  | illegalVariable
  -- Its command has no words.
  | noCommand
  -- What it wrote, or what was read for it, is not text.
  | undecodable
  deriving DecidableEq

/-- A fault in words. -/
def Fault.message : Fault → String
  | nullByte => "embedded null byte"
  | illegalVariable => "illegal environment variable name"
  | noCommand => "list index out of range"
  | undecodable => "undecodable bytes"

/-- An error or a fault. -/
inductive Failure
  -- The query has no value.
  | error (cause : CalcError)
  -- A program outside could not be run.
  | fault (cause : Fault)

end PackageAlgebra
