import PackageAlgebra.Script.CasePattern

/-!
# Statements of Module Source

The rules for statements and for whole modules.

The rules contain each other: a statement holds expressions and blocks of
statements, an expression holds expressions in brackets. They are tied together in
levels. What stands within a rule of one level is read by the rules of the level
below, and a text has no more levels than characters, since a bracket, a block or a
field is opened by at least one.

## Main definitions

* `statementRule`: A line of statements, or a statement with its block.
* `grammar`: The rules with a number of levels below them.
* `SourceError`: Why a text is not the source of a module.
* `parseModule`: The statements of a module.
-/

namespace PackageAlgebra.Script

open TokenParser

/-- The marks that change the value of a place. -/
def augmentedMarks : List String :=
  ["+=", "-=", "*=", "@=", "/=", "%=", "&=", "|=", "^=", "<<=", ">>=", "**=", "//="]

/-- What may be assigned: expressions between commas, or a value that is given when
    a generator is asked for the next one. -/
def assigned (g : Grammar) : Parser Tree := yieldExpression g <|> starExpressions g

/-- Whether all nodes but the last may be assigned to. -/
def areAssignments : List Tree → Bool
  | [] => true
  | [_] => true
  | t :: rest => t.isTarget && areAssignments rest

/-- Expressions, and what is assigned to them. -/
def assignment (g : Grammar) : Parser Tree := do
  let first ← assigned g
  (do
    mark ":"
    require first.isSingleTarget
    let type ← g.expression
    let value ← optional (do mark "="; assigned g)
    return .form (first :: type :: value.toList)) <|>
  (do
    markAmong augmentedMarks
    require first.isSingleTarget
    return .form [first, ← assigned g]) <|>
  (do
    let others ← many (do mark "="; assigned g)
    require (areAssignments (first :: others))
    return .form (first :: others))

/-- Names with dots between them. -/
def dottedText : Parser String := do
  let first ← identifier
  let others ← many (do mark "."; identifier)
  return ".".intercalate (first :: others)

/-- A name that is imported, and the name that it is given. -/
def importedName (name : Parser String) : Parser ImportedName := do
  let n ← name
  let rename ← optional (do word "as"; identifier)
  return ⟨n, rename⟩

/-- The dots before the module that is imported from. -/
def importLevel : Parser Nat := do
  let dots ← many (take fun
    | .mark m => if m = "." then some 1 else if m = "..." then some 3 else none
    | _ => none)
  return dots.foldr (· + ·) 0

/-- An import from a module. -/
def importFrom : Parser Tree := do
  word "from"
  let level ← importLevel
  let source ← optional dottedText
  require (0 < level || source.isSome)
  word "import"
  let names ←
    (do
      mark "*"
      return [⟨"*", none⟩]) <|>
    (do
      mark "("
      let names ← separatedEnd (importedName identifier)
      mark ")"
      return names) <|>
    separated (importedName identifier)
  return .importFrom level (source.getD "") names

/-- A statement that fits on a line. -/
def simpleStatement (g : Grammar) : Parser Tree :=
  (do
    word "pass" <|> word "break" <|> word "continue"
    return .form []) <|>
  (do
    word "return"
    return .form (← optional (starExpressions g)).toList) <|>
  (do
    word "import"
    return .importModules (← separated (importedName dottedText))) <|>
  importFrom <|>
  (do
    word "raise"
    (do
      let t ← g.expression
      let cause ← optional (do word "from"; g.expression)
      return .form (t :: cause.toList)) <|> return .form []) <|>
  (do
    word "del"
    let t ← oneOrTuple g.primary
    require t.isDeletable
    return .form [t]) <|>
  (do
    word "assert"
    let t ← g.expression
    let message ← optional (do mark ","; g.expression)
    return .form (t :: message.toList)) <|>
  (do
    word "global" <|> word "nonlocal"
    let _ ← separated identifier
    return .form []) <|>
  assignment g

/-- Statements on one line. -/
def statementLine (g : Grammar) : Parser (List Tree) := do
  let first ← simpleStatement g
  let others ← many (do mark ";"; simpleStatement g)
  let _ ← optionally (mark ";")
  token .lineEnd
  return first :: others

/-- What follows the colon of a statement: a block, or statements on the line. -/
def block (g : Grammar) : Parser (List Tree) :=
  (do
    token .lineEnd
    token .indent
    let statements ← many1 g.statement
    token .dedent
    return statements.flatten) <|> statementLine g

/-- A colon and a block. -/
def colonBlock (g : Grammar) : Parser (List Tree) := do
  mark ":"
  block g

/-- A block after a word, if the word comes next. -/
def blockAfter (g : Grammar) (w : String) : Parser (List Tree) :=
  (do
    word w
    colonBlock g) <|> pure []

/-- What a condition decides, after its first word; the bound is on the number of
    further conditions. -/
def conditionalFrom (g : Grammar) : Nat → Parser Tree
  | 0 => failure
  | n + 1 => do
    let test ← namedExpression g
    let body ← colonBlock g
    (do
      word "elif"
      return .branch test body [← conditionalFrom g n]) <|> (do
      return .branch test body (← blockAfter g "else"))

/-- What a condition decides. -/
def conditional (g : Grammar) : Parser Tree := do
  word "if"
  fun ts => conditionalFrom g (ts.length + 1) ts

/-- A loop over values. -/
def forLoop (g : Grammar) : Parser Tree := do
  word "for"
  let t ← targets g
  word "in"
  let source ← starExpressions g
  let body ← colonBlock g
  return .form (t :: source :: body ++ (← blockAfter g "else"))

/-- A loop with a condition. -/
def whileLoop (g : Grammar) : Parser Tree := do
  word "while"
  let test ← namedExpression g
  let body ← colonBlock g
  return .form (test :: body ++ (← blockAfter g "else"))

/-- What is done about an exception; `grouped` tells whether it is about a group of
    them, which takes a type. -/
def handler (g : Grammar) (grouped : Bool) : Parser (List Tree) := do
  word "except"
  if grouped then mark "*"
  let type ← optional g.expression
  require (!grouped || type.isSome)
  if type.isSome then
    let _ ← optional (do word "as"; identifier)
  return type.toList ++ (← colonBlock g)

/-- A block with what is done about its exceptions, and at its end. -/
def guarded (g : Grammar) : Parser Tree := do
  word "try"
  let body ← colonBlock g
  let grouped ← accepts (do word "except"; mark "*")
  let handlers ← many (handler g grouped)
  let otherwise ← if handlers.isEmpty then pure [] else blockAfter g "else"
  let atEnd ← optional (do
    word "finally"
    colonBlock g)
  require (!handlers.isEmpty || atEnd.isSome)
  return .form (body ++ handlers.flatten ++ otherwise ++ atEnd.getD [])

/-- A value that a block is run with, and where it is kept. -/
def resource (g : Grammar) : Parser (List Tree) := do
  let t ← g.expression
  (do
    word "as"
    return [t, ← target g]) <|> return [t]

/-- A block that is run with values. They may stand in parentheses, if nothing else
    is before the colon. -/
def withBlock (g : Grammar) : Parser Tree := do
  word "with"
  let resources ←
    (do
      mark "("
      let rs ← separatedEnd (resource g)
      mark ")"
      mark ":"
      return rs) <|>
    (do
      let rs ← separated (resource g)
      mark ":"
      return rs)
  return .form (resources.flatten ++ (← block g))

/-- A function, given its decorators. -/
def functionDefinition (g : Grammar) (decorators : List Tree) : Parser Tree := do
  word "def"
  let name ← identifier
  mark "("
  let signature ← parameters g true
  mark ")"
  let result ← optional (do mark "->"; g.expression)
  return .function name signature (← colonBlock g) (decorators ++ result.toList)

/-- A class, given its decorators. -/
def classDefinition (g : Grammar) (decorators : List Tree) : Parser Tree := do
  word "class"
  let name ← identifier
  let bases ← optional (do mark "("; arguments g)
  return .classDef name (bases.getD []) (← colonBlock g) decorators

/-- A function or a class with its decorators. -/
def definition (g : Grammar) : Parser Tree := do
  let decorators ← many (do
    mark "@"
    let t ← namedExpression g
    token .lineEnd
    return t)
  (do
    let _ ← optionally (word "async")
    functionDefinition g decorators) <|> classDefinition g decorators

/-- A case: its pattern, its condition and its block. -/
def case (g : Grammar) : Parser (List Tree) := do
  word "case"
  let p ← casePattern g
  let condition ← optional (do word "if"; namedExpression g)
  return p :: condition.toList ++ (← colonBlock g)

/-- A value and the cases that it is compared with. -/
def matchStatement (g : Grammar) : Parser Tree := do
  word "match"
  let starred ← accepts (mark "*")
  let first ← starredOr g (namedExpression g)
  let comma ← optionally (mark ",")
  let others ← if comma then optional (separatedEnd (starredOr g (namedExpression g)))
    else pure none
  require (!starred || comma)
  mark ":"
  token .lineEnd
  token .indent
  let cases ← many1 (case g)
  token .dedent
  return .form (first :: others.getD [] ++ cases.flatten)

/-- A line of statements, or a statement with its block. The word that begins a
    `match` statement is a name where no such statement follows. -/
def statementRule (g : Grammar) : Parser (List Tree) :=
  (do
    let t ← conditional g <|> definition g <|> forLoop g <|> whileLoop g <|> guarded g
      <|> withBlock g
      <|> (do
        word "async"
        forLoop g <|> withBlock g)
      <|> matchStatement g
    return [t]) <|> statementLine g

/-- The rules with a number of levels below them. -/
def grammar : Nat → Grammar
  | 0 => .empty
  | n + 1 => {
    primary := fun ts => primaryRule (grammar n) ts
    arithmetic := fun ts => arithmeticRule (grammar n) ts
    expression := fun ts => expressionRule (grammar n) ts
    pattern := fun ts => patternRule (grammar n) ts
    statement := fun ts => statementRule (grammar n) ts }

/-- Why a text is not the source of a module. -/
inductive SourceError
  -- It holds the character with number zero.
  | nullCharacter
  -- It is not well formed.
  | malformed
  deriving DecidableEq

/-- What is said about a text that is not the source of a module. -/
def SourceError.message : SourceError → String
  | .nullCharacter => "source code string cannot contain null bytes"
  | .malformed => "invalid syntax"

/-- The statements of a module. -/
def parseModule (source : String) : Except SourceError (List Tree) :=
  let cs := source.toList
  if cs.contains '\x00' then .error .nullCharacter
  else
    match scan cs with
    | none => .error .malformed
    | some ts =>
      match many (grammar (cs.length + 2)).statement ts with
      | some (statements, []) => .ok statements.flatten
      | _ => .error .malformed

end PackageAlgebra.Script
