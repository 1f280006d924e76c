import PackageAlgebra.Template.Spec

/-!
# Row Templates

Texts with fields between braces, filled in from named values.

A field names a value and may go on to a part or an item of it; a conversion
after an exclamation mark and a specification after a colon tell how the value is
shown. A specification may hold fields of its own. A brace that is text is
written twice.

A template is cut into pieces first, up to its first fault. Filling it in goes
from left to right, so a fault of the template is reported only if everything
before it could be filled in.

## Main definitions

* `TemplatePiece`: A piece of a template.
* `TemplatePiece.scan`: The pieces of a text.
* `FieldPath.read`: The name of a field with its parts and items.
* `Template.fill`: A template filled in.
-/

namespace PackageAlgebra

/-- A piece of a template. -/
inductive TemplatePiece
  -- Text.
  | literal (text : List Char)
  -- A field: its name, its conversion and its specification.
  | field (name : List Char) (conversion : Option Char) (spec : List Char)
  -- A fault, after which nothing can be read.
  | fault (cause : TemplateError)

namespace TemplatePiece

/-- Where reading a template stands; all texts being read are given in
    reverse. -/
inductive Place
  -- In text.
  | literal (text : List Char)
  -- In the name of a field.
  | name (text : List Char)
  -- Between the brackets of a name.
  | bracket (text : List Char)
  -- Before the letter of a conversion.
  | conversion (name : List Char)
  -- After the letter of a conversion.
  | converted (name : List Char) (letter : Char)
  -- In a specification, with the number of braces that are open.
  | spec (name : List Char) (letter : Option Char) (braces : Nat) (text : List Char)

/-- The pieces of the rest of a text. -/
def scanFrom : Place → List Char → List TemplatePiece
  | .literal text, [] => [literal text.reverse]
  | .literal text, '\x7b' :: '\x7b' :: rest => scanFrom (.literal ('\x7b' :: text)) rest
  | .literal text, '\x7d' :: '\x7d' :: rest => scanFrom (.literal ('\x7d' :: text)) rest
  | .literal text, c :: rest =>
    if c = '\x7b' then
      if rest.isEmpty then [fault .singleOpen]
      else literal text.reverse :: scanFrom (.name []) rest
    else if c = '\x7d' then [fault .singleClose]
    else scanFrom (.literal (c :: text)) rest
  | .name _, [] => [fault .closeExpected]
  | .name text, c :: rest =>
    if c = '\x7b' then [fault .openInName]
    else if c = '[' then scanFrom (.bracket (c :: text)) rest
    else if c = '\x7d' then field text.reverse none [] :: scanFrom (.literal []) rest
    else if c = ':' then scanFrom (.spec text.reverse none 1 []) rest
    else if c = '!' then scanFrom (.conversion text.reverse) rest
    else scanFrom (.name (c :: text)) rest
  | .bracket _, [] => [fault .closeExpected]
  | .bracket text, c :: rest =>
    if c = ']' then scanFrom (.name (c :: text)) rest else scanFrom (.bracket (c :: text)) rest
  | .conversion _, [] => [fault .endInConversion]
  | .conversion name, c :: rest => scanFrom (.converted name c) rest
  | .converted _ _, [] => [fault .unmatchedOpen]
  | .converted name letter, c :: rest =>
    if c = '\x7d' then field name (some letter) [] :: scanFrom (.literal []) rest
    else if c = ':' then scanFrom (.spec name (some letter) 1 []) rest
    else [fault .colonExpected]
  | .spec _ _ _ _, [] => [fault .unmatchedOpen]
  | .spec name letter braces text, c :: rest =>
    if c = '\x7b' then scanFrom (.spec name letter (braces + 1) (c :: text)) rest
    else if c = '\x7d' then
      if braces ≤ 1 then field name letter text.reverse :: scanFrom (.literal []) rest
      else scanFrom (.spec name letter (braces - 1) (c :: text)) rest
    else scanFrom (.spec name letter braces (c :: text)) rest

/-- The pieces of a text, up to its first fault. -/
def scan (text : List Char) : List TemplatePiece := scanFrom (.literal []) text

end TemplatePiece

/-- A step from a value to a part of it. -/
inductive FieldStep
  -- To the part with a name.
  | part (name : String)
  -- To the item at a position.
  | item (position : Option Nat)
  -- Nowhere.
  | fault (cause : TemplateError)

namespace FieldStep

/-- The number that a text is, none if it is not all digits. -/
def position? (cs : List Char) : Except TemplateError (Option Nat) :=
  if cs.isEmpty || !cs.all Char.isDigit then .ok none
  else do return (← FormatSpec.readNumber cs).1

/-- The step to an item. -/
def toItem (key : List Char) : FieldStep :=
  match position? key with
  | .error e => fault e
  | .ok position => if key.isEmpty then fault .emptyPart else item position

/-- The step to a part. -/
def toPart (name : List Char) : FieldStep :=
  if name.isEmpty then fault .emptyPart else part (String.ofList name)

/-- Where reading the steps of a field stands; texts are given in reverse. -/
inductive Place
  -- Before a step.
  | start
  -- In the name of a part.
  | part (name : List Char)
  -- In the position of an item.
  | item (key : List Char)

/-- The steps that a text spells. -/
def read : Place → List Char → List FieldStep
  | .start, [] => []
  | .start, c :: rest =>
    if c = '.' then read (.part []) rest
    else if c = '[' then read (.item []) rest
    else [fault .strayAfterBracket]
  | .part name, [] => [toPart name.reverse]
  | .part name, c :: rest =>
    if c = '.' then toPart name.reverse :: read (.part []) rest
    else if c = '[' then toPart name.reverse :: read (.item []) rest
    else read (.part (c :: name)) rest
  | .item _, [] => [fault .missingBracket]
  | .item key, c :: rest =>
    if c = ']' then toItem key.reverse :: read .start rest else read (.item (c :: key)) rest

/-- Take a step. -/
def take (v : TemplateValue) : FieldStep → Except TemplateError TemplateValue
  | part name => v.part name
  | item position => v.item position
  | fault e => .error e

end FieldStep

namespace Template

/-- The value that the name of a field leads to. -/
def lookup (values : List (String × TemplateValue)) (name : List Char) :
    Except TemplateError TemplateValue := do
  let first := name.takeWhile fun c => c ≠ '.' && c ≠ '['
  let steps := FieldStep.read .start (name.drop first.length)
  match ← FieldStep.position? first with
  | some i => throw (.positional i)
  | none =>
    if first.isEmpty then throw (.positional 0)
    else
      match values.find? fun v => v.1 = String.ofList first with
      | none => throw (.unknownName (String.ofList first))
      | some (_, v) => steps.foldlM FieldStep.take v

/-- A value after a conversion. -/
def convert (v : TemplateValue) (letter : Char) : Except TemplateError TemplateValue :=
  if letter = 'r' then .ok (.text v.quoted)
  else if letter = 's' then .ok (.text v.shown)
  else if letter = 'a' then
    .ok (.text (match v with
      | .text s => Text.quoteAscii s
      | v => v.quoted))
  else .error (.unknownConversion letter)

/-- Fill in the pieces of a template; `depth` tells how deep specifications may
    hold fields. -/
def fillPieces (values : List (String × TemplateValue)) : Nat → List TemplatePiece →
    Except TemplateError String
  | 0, _ => .error .tooDeep
  | depth + 1, pieces => do
    let texts ← pieces.mapM fun
      | .literal text => pure (String.ofList text)
      | .fault e => throw e
      | .field name conversion spec => do
        let v ← lookup values name
        let v ← match conversion with
          | none => pure v
          | some letter => convert v letter
        let spec ← if spec.contains '\x7b' then
            (·.toList) <$> fillPieces values depth (TemplatePiece.scan spec)
          else pure spec
        v.format spec
    return Text.join "" texts

/-- A template filled in. -/
def fill (template : String) (values : List (String × TemplateValue)) :
    Except TemplateError String :=
  fillPieces values 2 (TemplatePiece.scan template.toList)

end Template

end PackageAlgebra
