/-!
# Problems of a Document

What is wrong with a document that was to be read as data of a given shape.

A document may have several problems; each is a place in it and a kind. The
place is a path of field names and list positions.

## Main definitions

* `ProblemKind`: The kinds of problems.
* `Problem`: A kind at a place.
* `Problem.within`: A problem of a part, as a problem of the whole.
-/

namespace PackageAlgebra

/-- What can be wrong at a place. -/
inductive ProblemKind
  -- The text is no document.
  | jsonInvalid
  -- A field is not there.
  | missing
  -- An object is expected.
  | modelType
  -- A list is expected.
  | listType
  -- A text is expected.
  | stringType
  -- The text has half of a surrogate pair.
  | stringUnicode
  -- A whole number is expected.
  | intType
  -- The text is no whole number.
  | intParsing
  -- The whole number is too large to be read.
  | intParsingSize
  -- The number has a fractional part.
  | intFromFloat
  -- The number is infinite or none.
  | finiteNumber
  -- A truth value is expected.
  | boolType
  -- The text or number is no truth value.
  | boolParsing
  deriving DecidableEq

/-- The name of a kind. -/
def ProblemKind.label : ProblemKind → String
  | jsonInvalid => "json_invalid"
  | missing => "missing"
  | modelType => "model_type"
  | listType => "list_type"
  | stringType => "string_type"
  | stringUnicode => "string_unicode"
  | intType => "int_type"
  | intParsing => "int_parsing"
  | intParsingSize => "int_parsing_size"
  | intFromFloat => "int_from_float"
  | finiteNumber => "finite_number"
  | boolType => "bool_type"
  | boolParsing => "bool_parsing"

/-- A kind of problem at a place. -/
structure Problem where
  -- The path of the place: field names and list positions.
  location : List String
  -- What is wrong there.
  kind : ProblemKind
  deriving DecidableEq

/-- A problem of a part, as a problem of the whole. -/
def Problem.within (part : String) (p : Problem) : Problem :=
  { p with location := part :: p.location }

/-- How many problems a document has, in words. -/
def Problem.summary (problems : List Problem) (title : String) : String :=
  Nat.repr problems.length ++ " validation error" ++ (if problems.length = 1 then "" else "s") ++
    " for " ++ title

end PackageAlgebra
