import PackageAlgebra.Package.Stat
import PackageAlgebra.Text.Pieces
import PackageAlgebra.Text.Quoted

/-!
# Template Values

What the fields of a row template stand for.

A value is a text, a whole number or counts. Counts have parts that a field can
name; a text has characters that a field can number.

## Main definitions

* `TemplateError`: Why a template cannot be filled in.
* `TemplateError.message`, `TemplateError.kind`: An error in words, and its kind.
* `TemplateValue`: What a field stands for.
* `TemplateValue.shown`, `TemplateValue.quoted`: The text of a value.
* `TemplateValue.part?`, `TemplateValue.item?`: Its parts.
-/

namespace PackageAlgebra

/-- Why a template cannot be filled in. -/
inductive TemplateError
  -- An opening brace begins no field.
  | singleOpen
  -- A closing brace ends no field.
  | singleClose
  -- A field is not closed.
  | closeExpected
  -- The specification of a field is not closed.
  | unmatchedOpen
  -- The name of a field holds an opening brace.
  | openInName
  -- The template ends where a conversion is expected.
  | endInConversion
  -- Something else than a specification follows a conversion.
  | colonExpected
  -- A conversion has an unknown letter.
  | unknownConversion (letter : Char)
  -- Specifications nest too deep.
  | tooDeep
  -- A number is too large to be a position or a width.
  | tooManyDigits
  -- A field asks for a value by position.
  | positional (position : Nat)
  -- No value has the name.
  | unknownName (name : String)
  -- A part has an empty name.
  | emptyPart
  -- The position of an item is not closed.
  | missingBracket
  -- Something follows the position of an item.
  | strayAfterBracket
  -- A value has no such part.
  | unknownPart (typeName part : String)
  -- A value has no items.
  | noItems (typeName : String)
  -- The items of a text are numbered.
  | textPosition
  -- A text has no item at the position.
  | outOfRange
  -- A value takes no specification.
  | noSpec (typeName : String)
  -- A specification makes no sense.
  | invalidSpec (spec typeName : String)
  -- A point in a specification is not followed by a precision.
  | missingPrecision
  -- Two separators of thousands are given.
  | bothSeparators
  -- A separator of thousands does not go with the type.
  | separatorType (separator type : Char)
  -- A value cannot be shown as the type.
  | unknownType (type : Char) (typeName : String)
  -- A text takes no sign.
  | signOfText (blank : Bool)
  -- A text has no zero.
  | zeroOfText
  -- A text has no alternate form.
  | alternateText
  -- A text has no sign to be aligned after.
  | alignOfText
  -- A whole number takes no precision.
  | precisionOfInt
  -- A whole number has no negative zero.
  | zeroOfInt
  -- A character takes no sign.
  | signOfChar
  -- A character has no alternate form.
  | alternateChar
  -- No character has the number.
  | charRange
  -- The number is too large to be looked at.
  | wordRange
  -- The number is too large to be rounded.
  | floatRange
  deriving DecidableEq

/-- The kinds of template errors. -/
inductive TemplateErrorKind
  -- A template or a specification is not well formed.
  | value
  -- No value has a name.
  | key
  -- No value stands at a position.
  | index
  -- A value has no such part.
  | attribute
  -- A value cannot be used in this way.
  | type
  -- A number is too large.
  | overflow
  deriving DecidableEq

namespace TemplateError

/-- The kind of an error. -/
def kind : TemplateError → TemplateErrorKind
  | positional _ | outOfRange => .index
  | unknownName _ => .key
  | unknownPart _ _ => .attribute
  | noItems _ | textPosition | noSpec _ => .type
  | charRange | wordRange | floatRange => .overflow
  | _ => .value

/-- A character as an error shows it. -/
def letter (c : Char) : String :=
  if 32 < c.toNat ∧ c.toNat < 128 then c.toString
  else "\\x" ++ String.ofList (Text.hexDigits 1 c.toNat)

/-- An error in words. -/
def message : TemplateError → String
  | singleOpen => "Single '\x7b' encountered in format string"
  | singleClose => "Single '\x7d' encountered in format string"
  | closeExpected => "expected '\x7d' before end of string"
  | unmatchedOpen => "unmatched '\x7b' in format spec"
  | openInName => "unexpected '\x7b' in field name"
  | endInConversion => "end of string while looking for conversion specifier"
  | colonExpected => "expected ':' after conversion specifier"
  | unknownConversion c => "Unknown conversion specifier " ++ letter c
  | tooDeep => "Max string recursion exceeded"
  | tooManyDigits => "Too many decimal digits in format string"
  | positional i =>
    "Replacement index " ++ Text.decimalNat i ++ " out of range for positional args tuple"
  | unknownName name => Text.quote name
  | emptyPart => "Empty attribute in format string"
  | missingBracket => "Missing ']' in format string"
  | strayAfterBracket => "Only '.' or '[' may follow ']' in format field specifier"
  | unknownPart typeName part =>
    "'" ++ typeName ++ "' object has no attribute '" ++ part ++ "'"
  | noItems typeName => "'" ++ typeName ++ "' object is not subscriptable"
  | textPosition => "string indices must be integers, not 'str'"
  | outOfRange => "string index out of range"
  | noSpec typeName => "unsupported format string passed to " ++ typeName ++ ".__format__"
  | invalidSpec spec typeName =>
    "Invalid format specifier '" ++ spec ++ "' for object of type '" ++ typeName ++ "'"
  | missingPrecision => "Format specifier missing precision"
  | bothSeparators => "Cannot specify both ',' and '_'."
  | separatorType separator type =>
    "Cannot specify '" ++ separator.toString ++ "' with '" ++ letter type ++ "'."
  | unknownType type typeName =>
    "Unknown format code '" ++ letter type ++ "' for object of type '" ++ typeName ++ "'"
  | signOfText blank =>
    (if blank then "Space" else "Sign") ++ " not allowed in string format specifier"
  | zeroOfText => "Negative zero coercion (z) not allowed in string format specifier"
  | alternateText => "Alternate form (#) not allowed in string format specifier"
  | alignOfText => "'=' alignment not allowed in string format specifier"
  | precisionOfInt => "Precision not allowed in integer format specifier"
  | zeroOfInt => "Negative zero coercion (z) not allowed in integer format specifier"
  | signOfChar => "Sign not allowed with integer format specifier 'c'"
  | alternateChar => "Alternate form (#) not allowed with integer format specifier 'c'"
  | charRange => "%c arg not in range(0x110000)"
  | wordRange => "Python int too large to convert to C long"
  | floatRange => "int too large to convert to float"

end TemplateError

/-- What a field of a template stands for. -/
inductive TemplateValue
  -- A text.
  | text (s : String)
  -- A whole number.
  | number (n : Int)
  -- Counts over files.
  | source (s : Source)
  -- Counts over packages.
  | stat (s : Stat)

namespace TemplateValue

/-- What errors call the type of a value. -/
def typeName : TemplateValue → String
  | text _ => "str"
  | number _ => "int"
  | source _ => "Source"
  | stat _ => "Stat"

/-- Named parts with their texts. -/
def parts (separator : String) (l : List (String × String)) : String :=
  Text.join separator (l.map fun p => p.1 ++ "=" ++ p.2)

/-- The parts of counts over files. -/
def sourceParts (s : Source) : List (String × String) :=
  [("files", Text.decimal s.files), ("binary", Text.decimal s.binary),
    ("size", Text.decimal s.size), ("lines", Text.decimal s.lines),
    ("blank", Text.decimal s.blank)]

/-- Counts over files as a part of something else. -/
def quotedSource (s : Source) : String := "Source(" ++ parts ", " (sourceParts s) ++ ")"

/-- The parts of counts over packages. -/
def statParts (s : Stat) : List (String × String) :=
  [("package_count", Text.decimal s.packageCount), ("python", quotedSource s.python),
    ("other_files", quotedSource s.otherFiles)]

/-- The text of a value. -/
def shown : TemplateValue → String
  | text s => s
  | number n => Text.decimal n
  | source s => parts " " (sourceParts s)
  | stat s => parts " " (statParts s)

/-- The text of a value with its limits marked. -/
def quoted : TemplateValue → String
  | text s => Text.quote s
  | number n => Text.decimal n
  | source s => quotedSource s
  | stat s => "Stat(" ++ parts ", " (statParts s) ++ ")"

/-- The part of a value with a name, if there is one. -/
def part? (v : TemplateValue) (name : String) : Option TemplateValue :=
  match v, name with
  | source s, "files" => some (number s.files)
  | source s, "binary" => some (number s.binary)
  | source s, "size" => some (number s.size)
  | source s, "lines" => some (number s.lines)
  | source s, "blank" => some (number s.blank)
  | stat s, "package_count" => some (number s.packageCount)
  | stat s, "python" => some (source s.python)
  | stat s, "other_files" => some (source s.otherFiles)
  | stat s, "all_files" => some (source s.allFiles)
  | number n, "real" => some (number n)
  | number n, "numerator" => some (number n)
  | number _, "imag" => some (number 0)
  | number _, "denominator" => some (number 1)
  | _, _ => none

/-- The part of a value with a name. -/
def part (v : TemplateValue) (name : String) : Except TemplateError TemplateValue :=
  match v.part? name with
  | some p => .ok p
  | none => .error (.unknownPart v.typeName name)

/-- The item of a value at a position, if the position is a number. -/
def item (v : TemplateValue) (position : Option Nat) : Except TemplateError TemplateValue :=
  match v, position with
  | text s, some i =>
    match s.toList[i]? with
    | some c => .ok (text c.toString)
    | none => .error .outOfRange
  | text _, none => .error .textPosition
  | v, _ => .error (.noItems v.typeName)

end TemplateValue

end PackageAlgebra
