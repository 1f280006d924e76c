import PackageAlgebra.Document.Reader
import PackageAlgebra.Script.Token

/-!
# String Literals

What the bodies of string literals mean.

Escapes stand for characters; half a surrogate pair, and a character given by its
name, are shown as the replacement character, since nothing that is read from a
module depends on them. A formatted literal holds fields between braces, and in
their specifications fields again, but not deeper. Of a formatted literal only
the texts of its fields matter, in the order in which their values are taken:
a field before the fields in its specification.

## Main definitions

* `decodeText`: The characters that the body of a literal stands for.
* `isByteText`: Whether the body of a bytes literal is well formed.
* `fieldTexts`: The fields of a formatted literal.
-/

namespace PackageAlgebra.Script

open Document (hexDigit?)

/-- The character with a number, if there is one, and otherwise the replacement
    character. -/
def charOfCode (n : Nat) : Char := if n.isValidChar then Char.ofNat n else '\ufffd'

/-- The value of the hexadecimal digits that a text begins with, as many as asked
    for. -/
def hexCode? : Nat → Nat → List Char → Option (Nat × List Char)
  | 0, value, cs => some (value, cs)
  | count + 1, value, c :: rest =>
    match hexDigit? c with
    | some d => hexCode? count (value * 16 + d) rest
    | none => none
  | _ + 1, _, [] => none

/-- The value of the octal digits that a text begins with, at most as many as
    asked for. -/
def octalCode : Nat → Nat → List Char → Nat × List Char
  | count + 1, value, c :: rest =>
    if '0' ≤ c ∧ c ≤ '7' then octalCode count (value * 8 + (c.toNat - '0'.toNat)) rest
    else (value, c :: rest)
  | _, value, cs => (value, cs)

/-- The character that a letter stands for after a backslash. -/
def letterEscape? (c : Char) : Option Char :=
  if c = '\\' ∨ c = '\'' ∨ c = '"' then some c
  else if c = 'a' then some '\x07'
  else if c = 'b' then some '\x08'
  else if c = 'f' then some '\x0c'
  else if c = 'n' then some '\n'
  else if c = 'r' then some '\r'
  else if c = 't' then some '\t'
  else if c = 'v' then some '\x0b'
  else none

/-- The characters that an escape stands for, given the text after its backslash,
    and the text after the escape. -/
def escape? : List Char → Option (List Char × List Char)
  | [] => some (['\\'], [])
  | '\n' :: rest => some ([], rest)
  | 'x' :: rest => (hexCode? 2 0 rest).map fun (n, rest) => ([charOfCode n], rest)
  | 'u' :: rest => (hexCode? 4 0 rest).map fun (n, rest) => ([charOfCode n], rest)
  | 'U' :: rest =>
    match hexCode? 8 0 rest with
    | some (n, rest) => if n ≤ 0x10ffff then some ([charOfCode n], rest) else none
    | none => none
  | 'N' :: rest =>
    match rest with
    | '\x7b' :: rest =>
      let name := rest.takeWhile (· ≠ '\x7d')
      let after := rest.drop name.length
      if name.isEmpty || after.isEmpty then none else some (['\ufffd'], after.drop 1)
    | _ => none
  | c :: rest =>
    if '0' ≤ c ∧ c ≤ '7' then
      let (n, rest) := octalCode 3 0 (c :: rest)
      some ([charOfCode n], rest)
    else
      match letterEscape? c with
      | some d => some ([d], rest)
      | none => some (['\\', c], rest)

/-- The characters that a text with escapes stands for. The bound on the recursion
    is the length of the text. -/
def decodeFrom : Nat → List Char → Option (List Char)
  | 0, cs => if cs.isEmpty then some [] else none
  | _ + 1, [] => some []
  | fuel + 1, c :: rest =>
    if c = '\\' then
      match escape? rest with
      | some (ds, rest) => (decodeFrom fuel rest).map (ds ++ ·)
      | none => none
    else (decodeFrom fuel rest).map (c :: ·)

/-- The characters that the body of a literal stands for. -/
def decodeText (raw : Bool) (body : List Char) : Option (List Char) :=
  if raw then some body else decodeFrom body.length body

/-- Whether the escapes of a bytes literal are well formed. -/
def byteEscapes : List Char → Bool
  | [] => true
  | '\\' :: 'x' :: rest =>
    match rest with
    | a :: b :: rest => (hexDigit? a).isSome && (hexDigit? b).isSome && byteEscapes rest
    | _ => false
  | '\\' :: _ :: rest => byteEscapes rest
  | _ :: rest => byteEscapes rest

/-- Whether the body of a bytes literal is well formed. -/
def isByteText (raw : Bool) (body : List Char) : Bool :=
  body.all (fun c => c.toNat < 128) && (raw || byteEscapes body)

/-- The text between fields, and the text from the brace on that ends it. Braces
    are doubled only outside specifications. `inName` tells that the name of a
    character is being read. -/
def betweenFields (raw nested : Bool) (inName : Bool) (done : List Char) :
    List Char → Option (List Char × List Char)
  | [] => some (done.reverse, [])
  | c :: rest =>
    if inName then betweenFields raw nested (c ≠ '\x7d') (c :: done) rest
    else if !raw && c = '\\' then
      match rest with
      | 'N' :: rest =>
        match rest with
        | '\x7b' :: rest => betweenFields raw nested true ('\x7b' :: 'N' :: c :: done) rest
        | _ => none
      | d :: rest' =>
        if d = '\x7b' ∨ d = '\x7d' then
          if !nested then
            match rest' with
            | e :: rest'' =>
              if e = d then betweenFields raw nested false (d :: c :: done) rest''
              else if d = '\x7d' then none
              else some ((c :: done).reverse, d :: rest')
            | [] => if d = '\x7d' then none else some ((c :: done).reverse, d :: rest')
          else some ((c :: done).reverse, d :: rest')
        else betweenFields raw nested false (d :: c :: done) rest'
      | [] => some ((c :: done).reverse, [])
    else if c = '\x7b' ∨ c = '\x7d' then
      if nested then some (done.reverse, c :: rest)
      else
        match rest with
        | d :: rest' =>
          if d = c then betweenFields raw nested false (c :: done) rest'
          else if c = '\x7d' then none
          else some (done.reverse, c :: rest)
        | [] => if c = '\x7d' then none else some (done.reverse, [c])
    else betweenFields raw nested false (c :: done) rest

/-- How deep brackets may nest in a field. -/
def fieldBracketLimit : Nat := 200

/-- The bracket that closes an opening one. -/
def closingBracket (c : Char) : Char :=
  if c = '(' then ')' else if c = '[' then ']' else '\x7d'

/-- The text of a field up to what ends its expression, and the text from there
    on. `quote` is the quote of the literal being read and whether it is tripled;
    `brackets` are those to be closed; `skip` is how many characters belong to the
    one before them. -/
def fieldExpression (quote : Option (Char × Bool)) (brackets : List Char) (skip : Nat)
    (done : List Char) : List Char → Option (List Char × List Char)
  | [] => none
  | c :: rest =>
    match skip with
    | skip + 1 => fieldExpression quote brackets skip (c :: done) rest
    | 0 =>
      if c = '\\' then none
      else
        match quote with
        | some (q, tripled) =>
          if c = q then
            if tripled then
              if [q, q].isPrefixOf rest then fieldExpression none brackets 2 (c :: done) rest
              else fieldExpression quote brackets 0 (c :: done) rest
            else fieldExpression none brackets 0 (c :: done) rest
          else fieldExpression quote brackets 0 (c :: done) rest
        | none =>
          if c = '\'' ∨ c = '"' then
            if [c, c].isPrefixOf rest then
              fieldExpression (some (c, true)) brackets 2 (c :: done) rest
            else fieldExpression (some (c, false)) brackets 0 (c :: done) rest
          else if c = '(' ∨ c = '[' ∨ c = '\x7b' then
            if brackets.length < fieldBracketLimit then
              fieldExpression none (closingBracket c :: brackets) 0 (c :: done) rest
            else none
          else if c = '#' then none
          else if brackets.isEmpty && ['!', ':', '\x7d', '=', '<', '>'].contains c then
            if ['='].isPrefixOf rest ∧ c ≠ ':' ∧ c ≠ '\x7d' then
              fieldExpression none brackets 1 (c :: done) rest
            else if c = '<' ∨ c = '>' then fieldExpression none brackets 0 (c :: done) rest
            else some (done.reverse, c :: rest)
          else if c = ')' ∨ c = ']' ∨ c = '\x7d' then
            match brackets with
            | expected :: brackets =>
              if c = expected then fieldExpression none brackets 0 (c :: done) rest else none
            | [] => none
          else fieldExpression none brackets 0 (c :: done) rest

/-- The text after the equals sign that repeats an expression, if there is one. -/
def afterRepeat (cs : List Char) : List Char :=
  match cs with
  | '=' :: rest => rest.dropWhile fun c => c = ' ' || ('\t' ≤ c && c ≤ '\r')
  | cs => cs

/-- The text after a conversion, if there is one. -/
def afterConversion (cs : List Char) : Option (List Char) :=
  match cs with
  | '!' :: c :: rest => if c = 's' ∨ c = 'r' ∨ c = 'a' then some rest else none
  | '!' :: [] => none
  | cs => some cs

/-- How deep fields may stand in specifications. -/
def fieldDepth : Nat := 2

/-- The texts of the fields up to the end of a literal or a specification, and the
    text from there on; `depth` tells how deep the text is. -/
def fieldsFrom (raw : Bool) : Nat → Nat → List Char → Option (List (List Char) × List Char)
  | 0, _, _ => none
  | fuel + 1, depth, cs =>
    match betweenFields raw (0 < depth) false [] cs with
    | none => none
    | some (between, rest) =>
      if (decodeText raw between).isNone then none
      else
        match rest with
        | '\x7b' :: rest =>
          if fieldDepth ≤ depth then none
          else
            match fieldExpression none [] 0 [] rest with
            | none => none
            | some (text, rest) =>
              if text.all fun c => c = ' ' || c = '\t' || c = '\n' || c = '\x0c' then none
              else
                match afterConversion (afterRepeat rest) with
                | none => none
                | some (':' :: rest) =>
                  match fieldsFrom raw fuel (depth + 1) rest with
                  | some (inner, '\x7d' :: rest) =>
                    (fieldsFrom raw fuel depth rest).map fun (later, rest) =>
                      (text :: inner ++ later, rest)
                  | _ => none
                | some ('\x7d' :: rest) =>
                  (fieldsFrom raw fuel depth rest).map fun (later, rest) => (text :: later, rest)
                | some _ => none
        | rest => some ([], rest)

/-- The texts of the fields of a formatted literal, in the order in which their
    values are taken; none if the literal is not well formed. -/
def fieldTexts (raw : Bool) (body : List Char) : Option (List (List Char)) :=
  match fieldsFrom raw (body.length + 1) 0 body with
  | some (texts, []) => some texts
  | _ => none

end PackageAlgebra.Script
