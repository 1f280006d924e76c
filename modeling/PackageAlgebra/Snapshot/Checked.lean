import PackageAlgebra.Document.Basic
import PackageAlgebra.Snapshot.Problem
import PackageAlgebra.Text.Blank
import PackageAlgebra.Text.Pieces

/-!
# Checked Values

Reading data of a given shape out of a document.

A check never stops at the first problem: it goes on with a value that stands in
for the missing one and collects all problems. Its outcome counts only if there
are none.

Numbers and truth values are read leniently. A whole number may be written as a
truth value, as a number whose worth is whole, or as a text; a truth value as
zero or one, or as one of a dozen words.

## Main definitions

* `Checked`: A value with the problems met on the way to it.
* `Checked.run`: The value, or the problems.
* `Document.asText`, `asBool`, `asInt`, `asList`, `asObject`: Checks.
* `Document.optional`: The check of a field with a default.
-/

namespace PackageAlgebra

/-- A value with the problems met on the way to it. -/
structure Checked (α : Type) where
  -- The value, or what stands in for it.
  value : α
  -- The problems.
  problems : List Problem

namespace Checked

variable {α β : Type}

/-- A value without problems. -/
def sound (a : α) : Checked α := ⟨a, []⟩

/-- A problem, and what stands in for the value. -/
def flawed (kind : ProblemKind) (standIn : α) : Checked α := ⟨standIn, [⟨[], kind⟩]⟩

instance : Monad Checked where
  pure := sound
  bind c f := ⟨(f c.value).value, c.problems ++ (f c.value).problems⟩

/-- The check of a part, its problems placed within the whole. -/
def within (part : String) (c : Checked α) : Checked α :=
  { c with problems := c.problems.map (Problem.within part) }

/-- The value, or the problems. -/
def run (c : Checked α) : Except (List Problem) α :=
  if c.problems.isEmpty then .ok c.value else .error c.problems

end Checked

namespace Document

/-- The blanks around a number in a text. -/
def isNumberBlank (c : Char) : Bool :=
  (CharSet.ofRanges [(9, 13), (32, 32), (0x85, 0x85), (0xa0, 0xa0), (0x1680, 0x1680),
    (0x2000, 0x200a), (0x2028, 0x2029), (0x202f, 0x202f), (0x205f, 0x205f),
    (0x3000, 0x3000)]).contains c

/-- Digits without their leading zeros, underscores among these being skipped;
    the zero before a point or the end stays. -/
def dropZeros (last : Char) : List Char → Option (List Char)
  | [] => some [last]
  | '.' :: rest => some (last :: '.' :: rest)
  | c :: rest =>
    if c = '0' ∨ c = '_' then dropZeros c rest
    else if c.isDigit then some (c :: rest)
    else none

/-- Digits without the point and the zeros that end them. -/
def dropPoint (cs : List Char) : List Char :=
  match Text.cutFirst '.' cs with
  | some (whole, zeros) => if zeros.all (· = '0') then whole else cs
  | none => cs

/-- Whether two underscores stand side by side. -/
def hasDoubleUnderscore : List Char → Bool
  | '_' :: '_' :: _ => true
  | _ :: rest => hasDoubleUnderscore rest
  | [] => false

/-- Digits without the underscores between them. -/
def dropUnderscores (cs : List Char) : List Char :=
  if cs.head? = some '_' || cs.getLast? = some '_' || hasDoubleUnderscore cs then cs
  else cs.filter (· ≠ '_')

/-- The value of plain digits with an optional minus sign and without leading
    zeros. -/
def plainInt? (cs : List Char) : Option Int :=
  let value (ds : List Char) : Option Nat :=
    if ds.isEmpty || !ds.all Char.isDigit || (ds.head? = some '0' && ds.length ≠ 1) then none
    else some (ds.foldl (fun n c => n * 10 + (c.toNat - '0'.toNat)) 0)
  match cs with
  | '-' :: ds => (value ds).map fun n => -(n : Int)
  | ds => (value ds).map fun n => (n : Int)

/-- The whole number that a text spells. -/
def spelledInt? (s : String) : Option Int :=
  let cs := Text.trimBoth isNumberBlank s.toList
  let cs := match cs with
    | '+' :: rest => rest
    | cs => cs
  let stripped := match cs with
    | '0' :: rest => dropZeros '0' rest
    | c :: rest => if c.isDigit || c = '-' then some (c :: rest) else none
    | [] => none
  stripped.bind fun cs => plainInt? (dropUnderscores (dropPoint cs))

/-- The whole numbers that a truth value or a rounded number may have. -/
def isMachineInt (n : Int) : Bool := decide (-(Int.pow 2 63) < n) && decide (n < Int.pow 2 63)

/-- Check for a text. -/
def asText : Document → Checked String
  | text s => .sound s
  | _ => .flawed .stringType ""

/-- Check for a text or nothing. -/
def asOptionalText : Document → Checked (Option String)
  | null => .sound none
  | d => some <$> asText d

/-- The truth value that a word stands for. -/
def spelledBool? (s : String) : Option Bool :=
  let word := String.ofList (s.toList.map Char.toLower)
  if ["1", "t", "y", "on", "yes", "true"].contains word then some true
  else if ["0", "f", "n", "off", "no", "false"].contains word then some false
  else none

/-- The truth value that a number stands for. -/
def numberBool (n : Int) : Checked Bool :=
  if n = 0 then .sound false
  else if n = 1 then .sound true
  else .flawed .boolParsing false

/-- Check for a truth value. -/
def asBool : Document → Checked Bool
  | bool b => .sound b
  | text s =>
    match spelledBool? s with
    | some b => .sound b
    | none => .flawed .boolParsing false
  | int n => if isMachineInt n || n = -(Int.pow 2 63) then numberBool n else .flawed .boolType false
  | real r =>
    match r.worth with
    | .whole n => if isMachineInt n then numberBool n else .flawed .boolType false
    | _ => .flawed .boolType false
  | _ => .flawed .boolType false

/-- Check for a whole number. -/
def asInt : Document → Checked Int
  | int n => .sound n
  | bool b => .sound (if b then 1 else 0)
  | text s =>
    match spelledInt? s with
    | some n => .sound n
    | none => .flawed (if 4300 < s.length then .intParsingSize else .intParsing) 0
  | real r =>
    match r.worth with
    | .whole n => if isMachineInt n then .sound n else .flawed .intParsingSize 0
    | .fraction => .flawed .intFromFloat 0
    | .infinite => .flawed .finiteNumber 0
  | _ => .flawed .intType 0

/-- Check the items of a list, the first of which has the given position. -/
def checkItems {α : Type} (check : Document → Checked α) (position : Nat) :
    List Document → Checked (List α)
  | [] => .sound []
  | d :: rest => do
    let a ← (check d).within (Text.decimalNat position)
    let as ← checkItems check (position + 1) rest
    return a :: as

/-- Check for a list. -/
def asList {α : Type} (check : Document → Checked α) : Document → Checked (List α)
  | list items => checkItems check 0 items
  | _ => .flawed .listType []

/-- Check for an object. -/
def asObject {α : Type} (standIn : α) (check : List (String × Document) → Checked α) :
    Document → Checked α
  | object fields => check fields
  | _ => .flawed .modelType standIn

/-- The check of a field that must be there. -/
def required {α : Type} (fields : List (String × Document)) (name : String) (standIn : α)
    (check : Document → Checked α) : Checked α :=
  (match field? fields name with
    | some d => check d
    | none => .flawed .missing standIn).within name

/-- The check of a field with a default. -/
def optional {α : Type} (fields : List (String × Document)) (name : String) (default : α)
    (check : Document → Checked α) : Checked α :=
  match field? fields name with
  | some d => (check d).within name
  | none => .sound default

end Document

end PackageAlgebra
