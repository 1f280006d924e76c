import PackageAlgebra.Script.Literal
import PackageAlgebra.Script.Parser
import PackageAlgebra.Script.Scan

/-!
# Expressions of Module Source

The rules for expressions, from the tightest to the loosest.

Operators of arithmetic are read as one chain, since their operands are visited
from left to right whatever binds tighter; the same goes for the two logical
connectives. Where values may be assigned to, an expression is read and then
looked at, instead of being read by rules of its own. What a bracket holds is told
from what follows its first value, so that no value is read twice.

## Main definitions

* `primaryRule`: An operand without operators.
* `arithmeticRule`: Operands with operators of arithmetic between them.
* `expressionRule`: An expression without commas outside brackets.
* `starExpressions`, `namedExpression`, `targets`: Expressions in their places.
* `arguments`, `parameters`: What stands between the parentheses of a call and of a
  definition.
-/

namespace PackageAlgebra.Script

open TokenParser

/-- The operators between operands of arithmetic. -/
def arithmeticMarks : List String :=
  ["|", "^", "&", "<<", ">>", "+", "-", "*", "/", "//", "%", "@", "**"]

/-- The marks of comparisons. -/
def comparisonMarks : List String := ["==", "!=", "<", ">", "<=", ">="]

/-- Take a mark from a list. -/
def markAmong (marks : List String) : Parser Unit := take fun
  | .mark m => if marks.contains m then some () else none
  | _ => none

/-- A value, or the values of a tuple without parentheses. -/
def oneOrTuple (item : Parser Tree) : Parser Tree := do
  let first ← item
  let others ← many (do mark ","; item)
  let trailing ← optionally (mark ",")
  if others.isEmpty && !trailing then return first else return .tuple (first :: others)

/-- A value whose items stand for themselves, or a value of another kind. -/
def starredOr (g : Grammar) (other : Parser Tree) : Parser Tree :=
  (do
    mark "*"
    return .starred (← g.arithmetic)) <|> other

/-- The name of a value that is given within an expression, followed by the mark
    that gives it. -/
def givenName : Parser String := do
  let id ← identifier
  mark ":="
  return id

/-- An expression that may give its value a name. -/
def namedExpression (g : Grammar) : Parser Tree :=
  (do
    let id ← givenName
    return .form [.name id, ← g.expression]) <|> g.expression

/-- Expressions between commas, with starred ones among them. -/
def starExpressions (g : Grammar) : Parser Tree := oneOrTuple (starredOr g g.expression)

/-- A value that is given when a generator is asked for the next one. -/
def yieldExpression (g : Grammar) : Parser Tree := do
  word "yield"
  (do
    word "from"
    return .form [← g.expression]) <|> (do
    return .form (← optional (starExpressions g)).toList)

/-- Comparisons between operands. -/
def comparison (arithmetic : Parser Tree) : Parser Tree := do
  let first ← arithmetic
  let others ← many (do
    markAmong comparisonMarks <|> word "in" <|> (do word "not"; word "in") <|>
      (do
        word "is"
        let _ ← optionally (word "not"))
    arithmetic)
  if others.isEmpty then return first else return .compare first others

/-- A comparison that may be negated. -/
def inversion (arithmetic : Parser Tree) : Parser Tree := do
  let nots ← many (word "not")
  let t ← comparison arithmetic
  if nots.isEmpty then return t else return .form [t]

/-- Comparisons with logical connectives between them. -/
def disjunction (arithmetic : Parser Tree) : Parser Tree := do
  let first ← inversion arithmetic
  let others ← many (do
    word "or" <|> word "and"
    inversion arithmetic)
  if others.isEmpty then return first else return .form (first :: others)

/-- A place that values may be assigned to. -/
def target (g : Grammar) : Parser Tree := do
  let starred ← optionally (mark "*")
  let t ← g.primary
  require t.isTarget
  if starred then return .starred t else return t

/-- Places that values may be assigned to, between commas. -/
def targets (g : Grammar) : Parser Tree := oneOrTuple (target g)

/-- The clauses of a comprehension: for each its targets, what they run over, and
    its conditions. -/
def clauses (g : Grammar) : Parser (List Tree) := do
  let parts ← many1 (do
    let _ ← optionally (word "async")
    word "for"
    let t ← targets g
    word "in"
    let source ← disjunction g.arithmetic
    let conditions ← many (do
      word "if"
      disjunction g.arithmetic)
    return t :: source :: conditions)
  return parts.flatten

/-- Whether the clauses of a comprehension come next. -/
def clausesFollow : Parser Bool := accepts (word "for" <|> word "async")

/-- An argument of a call. -/
inductive Argument
  -- A value in its place.
  | positional (value : Tree)
  -- A value whose items are in their places.
  | starred (value : Tree)
  -- A value with a name.
  | named (value : Tree)
  -- A value whose items have names.
  | doubleStarred (value : Tree)

namespace Argument

/-- Whether arguments may follow each other, `names` telling whether a named one
    has come and `doubles` whether a double starred one has. -/
def inOrder (names doubles : Bool) : List Argument → Bool
  | [] => true
  | positional _ :: rest => !names && !doubles && inOrder names doubles rest
  | starred _ :: rest => !doubles && inOrder names doubles rest
  | named _ :: rest => inOrder true doubles rest
  | doubleStarred _ :: rest => inOrder names true rest

/-- The arguments by place. -/
def places : List Argument → List Tree
  | [] => []
  | positional t :: rest => t :: places rest
  | starred t :: rest => .starred t :: places rest
  | named _ :: rest => places rest
  | doubleStarred _ :: rest => places rest

/-- The arguments by name. -/
def names : List Argument → List Tree
  | [] => []
  | positional _ :: rest => names rest
  | starred _ :: rest => names rest
  | named t :: rest => t :: names rest
  | doubleStarred t :: rest => t :: names rest

end Argument

/-- An argument of a call. -/
def argument (g : Grammar) : Parser Argument :=
  (do
    mark "**"
    return .doubleStarred (← g.expression)) <|>
  (do
    mark "*"
    return .starred (← g.expression)) <|>
  (do
    let _ ← identifier
    mark "="
    return .named (← g.expression)) <|>
  (do return .positional (← namedExpression g))

/-- The arguments of a call up to the parenthesis that closes it: those by place
    before those by name. A comprehension may be the only argument. -/
def arguments (g : Grammar) : Parser (List Tree) :=
  (do
    mark ")"
    return []) <|>
  (do
    let first ← argument g
    if ← clausesFollow then
      match first with
      | .positional t =>
        let cs ← clauses g
        mark ")"
        return [.form (t :: cs)]
      | _ => failure
    else
      let others ← many (do mark ","; argument g)
      let _ ← optionally (mark ",")
      mark ")"
      let args := first :: others
      require (Argument.inOrder false false args)
      return Argument.places args ++ Argument.names args)

/-- What selects an item: a value, or a range with up to three of them. -/
def selector (g : Grammar) : Parser Tree :=
  (do
    mark "*"
    return .starred (← g.expression)) <|>
  (do
    let id ← givenName
    return .form [.name id, ← g.expression]) <|>
  (do
    let lower ← optional g.expression
    (do
      mark ":"
      let upper ← optional g.expression
      let step ← optional (do
        mark ":"
        optional g.expression)
      return .form (lower.toList ++ upper.toList ++ (step.bind id).toList)) <|>
      match lower with
      | some t => return t
      | none => failure)

/-- What follows an operand: a member, arguments, or selectors. -/
def trailer (g : Grammar) (t : Tree) : Parser Tree :=
  (do
    mark "."
    return .member t (← identifier)) <|>
  (do
    mark "("
    return .call t (← arguments g)) <|>
  (do
    mark "["
    let selectors ← separatedEnd (selector g)
    mark "]"
    return .subscript t selectors)

/-- An operand with what follows it, a limited number of times. -/
def trailers (g : Grammar) : Nat → Tree → Parser Tree
  | 0, t => pure t
  | n + 1, t => (do trailers g n (← trailer g t)) <|> pure t

/-- Whether a tree is starred. -/
def isStarred : Tree → Bool
  | .starred _ => true
  | _ => false

/-- What stands between parentheses: a value, a comprehension, or the values of a
    tuple. -/
def parenthesized (g : Grammar) : Parser Tree :=
  (do
    mark ")"
    return .tuple []) <|>
  (do
    let t ← yieldExpression g
    mark ")"
    return t) <|>
  (do
    let first ← starredOr g (namedExpression g)
    if ← clausesFollow then
      require (!isStarred first)
      let cs ← clauses g
      mark ")"
      return .form (first :: cs)
    else
      let others ← many (do mark ","; starredOr g (namedExpression g))
      let trailing ← optionally (mark ",")
      mark ")"
      if others.isEmpty && !trailing then
        require (!isStarred first)
        return first
      else return .tuple (first :: others))

/-- What stands between brackets: a comprehension, or the values of a list. -/
def bracketed (g : Grammar) : Parser Tree :=
  (do
    mark "]"
    return .list []) <|>
  (do
    let first ← starredOr g (namedExpression g)
    if ← clausesFollow then
      require (!isStarred first)
      let cs ← clauses g
      mark "]"
      return .form (first :: cs)
    else
      let others ← many (do mark ","; starredOr g (namedExpression g))
      let _ ← optionally (mark ",")
      mark "]"
      return .list (first :: others))

/-- A key with its value, or a value whose items have keys. -/
def entry (g : Grammar) : Parser (Option Tree × Tree) :=
  (do
    mark "**"
    return (none, ← g.arithmetic)) <|>
  (do
    let key ← g.expression
    mark ":"
    return (some key, ← g.expression))

/-- The entries of a dictionary after the first. Its keys come before its values. -/
def laterEntries (g : Grammar) (first : Option Tree × Tree) : Parser Tree := do
  let others ← many (do mark ","; entry g)
  let _ ← optionally (mark ",")
  mark "\x7d"
  let entries := first :: others
  return .form (entries.filterMap Prod.fst ++ entries.map Prod.snd)

/-- What stands between braces: the entries of a dictionary, the values of a set, or
    a comprehension of either. -/
def braced (g : Grammar) : Parser Tree :=
  (do
    mark "\x7d"
    return .form []) <|>
  (do
    mark "**"
    laterEntries g (none, ← g.arithmetic)) <|>
  (do
    let named ← accepts givenName
    let first ← starredOr g (namedExpression g)
    if ← optionally (mark ":") then
      require (!named && !isStarred first)
      let value ← g.expression
      if ← clausesFollow then
        let cs ← clauses g
        mark "\x7d"
        return .form (first :: value :: cs)
      else laterEntries g (some first, value)
    else if ← clausesFollow then
      require (!isStarred first)
      let cs ← clauses g
      mark "\x7d"
      return .form (first :: cs)
    else
      let others ← many (do mark ","; starredOr g (namedExpression g))
      let _ ← optionally (mark ",")
      mark "\x7d"
      return .form (first :: others))

/-- The field of a formatted literal, read as if it stood between parentheses. -/
def fieldTree (g : Grammar) (text : List Char) : Option Tree :=
  match scan ('(' :: text ++ [')']) with
  | none => none
  | some ts =>
    match (do mark "("; parenthesized g : Parser Tree) ts with
    | some (t, [.lineEnd]) => some t
    | _ => none

/-- A string literal among others: its characters, or the fields of a formatted
    one. -/
def literalPart (g : Grammar) (l : Literal) : Option (Sum (List Char) (List Tree)) :=
  if l.bytes then if isByteText l.raw l.body then some (.inl []) else none
  else if l.formatted then
    ((fieldTexts l.raw l.body).bind fun texts => texts.mapM (fieldTree g)).map .inr
  else (decodeText l.raw l.body).map .inl

/-- The value of string literals side by side. Those of bytes stand only beside
    each other. -/
def literals (g : Grammar) (ls : List Literal) : Option Tree :=
  if ls.any (·.bytes) && !ls.all (·.bytes) then none
  else
    match ls.mapM (literalPart g) with
    | none => none
    | some parts =>
      if ls.any (·.formatted) then
        some (.form (parts.flatMap fun
          | .inl _ => []
          | .inr trees => trees))
      else if ls.any (·.bytes) then some (.form [])
      else
        some (.text (String.ofList (parts.flatMap fun
          | .inl cs => cs
          | .inr _ => [])))

/-- The string literals that come next. -/
def literalRun : Parser (List Literal) := many1 (take fun
  | .literal l => some l
  | _ => none)

/-- An operand without what follows it. -/
def atom (g : Grammar) : Parser Tree :=
  (do return .name (← identifier)) <|>
  (take fun
    | .number _ => some (.form [])
    | .word w => if ["True", "False", "None"].contains w then some (.form []) else none
    | .mark m => if m = "..." then some (.form []) else none
    | _ => none) <|>
  (do
    let ls ← literalRun
    match literals g ls with
    | some t => return t
    | none => failure) <|>
  (do mark "("; parenthesized g) <|>
  (do mark "["; bracketed g) <|>
  (do mark "\x7b"; braced g)

/-- An operand without operators. -/
def primaryRule (g : Grammar) : Parser Tree := fun ts =>
  (do trailers g ts.length (← atom g) : Parser Tree) ts

/-- An operand with the signs before it. -/
def signedOperand (g : Grammar) : Parser Tree := do
  let signs ← many (markAmong ["+", "-", "~"])
  let awaited ← optionally (word "await")
  let t ← primaryRule g
  if signs.isEmpty && !awaited then return t else return .form [t]

/-- Operands with operators of arithmetic between them. -/
def arithmeticRule (g : Grammar) : Parser Tree := do
  let first ← signedOperand g
  let others ← many (do
    markAmong arithmeticMarks
    signedOperand g)
  if others.isEmpty then return first else return .form (first :: others)

/-- A parameter of a definition. -/
inductive Parameter
  -- A parameter with a name, the type that it is given, and its default.
  | plain (type default : Option Tree)
  -- The mark after the parameters that are given by place only.
  | slash
  -- The mark before the parameters that are given by name only.
  | bareStar
  -- The parameter for all other arguments by place.
  | rest (type : Option Tree)
  -- The parameter for all other arguments by name.
  | restByName (type : Option Tree)

namespace Parameter

/-- Whether the parameters after a star are in order: those for arguments by name,
    and at last the one for all others. -/
def inOrderByName : List Parameter → Bool
  | [] => true
  | plain _ _ :: ps => inOrderByName ps
  | [restByName _] => true
  | _ => false

/-- Whether parameters may follow each other. `first` tells that there has been
    none, `slashed` that the mark after those given by place only has been, and
    `filled` that one with a default has been. -/
def inOrder (first slashed filled : Bool) : List Parameter → Bool
  | [] => true
  | plain _ default :: ps =>
    (!filled || default.isSome) && inOrder false slashed (filled || default.isSome) ps
  | slash :: ps => !first && !slashed && inOrder false true filled ps
  | bareStar :: ps =>
    (match ps with
    | plain _ _ :: _ => true
    | _ => false) && inOrderByName ps
  | rest _ :: ps => inOrderByName ps
  | restByName _ :: ps => ps.isEmpty

/-- The types of parameters by place, and the parameters from the first star on. -/
def typesByPlace : List Parameter → List Tree × List Parameter
  | plain type _ :: ps =>
    let (ts, later) := typesByPlace ps
    (type.toList ++ ts, later)
  | slash :: ps => typesByPlace ps
  | ps => ([], ps)

/-- The defaults of parameters up to the first star. -/
def defaultsByPlace : List Parameter → List Tree
  | plain _ default :: ps => default.toList ++ defaultsByPlace ps
  | slash :: ps => defaultsByPlace ps
  | _ => []

/-- The type of a parameter. -/
def type? : Parameter → Option Tree
  | plain type _ => type
  | rest type => type
  | restByName type => type
  | slash => none
  | bareStar => none

/-- The default of a parameter. -/
def default? : Parameter → Option Tree
  | plain _ default => default
  | _ => none

/-- Whether a parameter is the one for all other arguments by name. -/
def isRestByName : Parameter → Bool
  | restByName _ => true
  | _ => false

/-- The types and defaults of parameters in the order in which they are visited:
    the types by place, those of the parameters after a star, the defaults by name,
    the type of the last parameter, and the defaults by place. -/
def visited (ps : List Parameter) : List Tree :=
  let (types, later) := typesByPlace ps
  let byName := later.filter fun p => !p.isRestByName
  types ++ byName.filterMap type? ++ byName.filterMap default?
    ++ (later.filter isRestByName).filterMap type? ++ defaultsByPlace ps

end Parameter

/-- A parameter, `typed` telling whether it may be given a type. -/
def parameter (g : Grammar) (typed : Bool) : Parser Parameter :=
  (do
    mark "/"
    return .slash) <|>
  (do
    mark "**"
    let _ ← identifier
    return .restByName (← type g.expression)) <|>
  (do
    mark "*"
    (do
      let _ ← identifier
      return .rest (← type (starredOr g g.expression))) <|> return .bareStar) <|>
  (do
    let _ ← identifier
    let t ← type g.expression
    let default ← optional (do
      mark "="
      g.expression)
    return .plain t default)
where
  -- The type of a parameter, if it may have one and has.
  type (p : Parser Tree) : Parser (Option Tree) :=
    if typed then optional (do mark ":"; p) else pure none

/-- The parameters of a definition: their types and defaults. -/
def parameters (g : Grammar) (typed : Bool) : Parser (List Tree) := do
  match ← optional (separatedEnd (parameter g typed)) with
  | none => return []
  | some ps =>
    require (Parameter.inOrder true false false ps)
    return Parameter.visited ps

/-- A function without a name. -/
def lambda (g : Grammar) : Parser Tree := do
  word "lambda"
  let ps ← parameters g false
  mark ":"
  return .form (ps ++ [← g.expression])

/-- An expression without commas outside brackets. A conditional one is visited
    with its condition first. -/
def expressionRule (g : Grammar) : Parser Tree :=
  lambda g <|>
  (do
    let t ← disjunction (arithmeticRule g)
    (do
      word "if"
      let condition ← disjunction (arithmeticRule g)
      word "else"
      return .form [condition, t, ← g.expression]) <|> return t)

end PackageAlgebra.Script
