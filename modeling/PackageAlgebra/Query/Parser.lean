import PackageAlgebra.Query.Expr
import PackageAlgebra.Query.Token

/-!
# Reading Queries

From the tokens of a query to its syntax tree.

The grammar, in words: a query is a list of statements between semicolons, empty
ones being dropped. A statement is an expression, or a name with an assignment
and an expression. An expression is one or more terms side by side, followed by
any number of operators with one or more terms each; operators fold to the
left. A term is a name, a function with its arguments, or an expression between
parentheses, followed by any number of selectors.

Three functions call each other. `operand` reads what stands between two
separators; `arguments` reads a list of them up to the closing parenthesis;
`operators` folds the operands that follow an operator. Each reads from a
cursor, which knows the tokens ahead and the one just passed: how an operand
ended is seen from that token.

The recursion is bounded by a number that the length of the token list covers
with room to spare, so `ParseError.exhausted` is never an answer of
`parseTokens`.

## Main definitions

* `ParseError`: Why a token list is no query.
* `Cursor`: A place between two tokens.
* `parseTokens`: The syntax tree of a token list, if it has statements.
* `QueryError`: Why a text is no query.
* `parseWords`: The syntax tree of the words of a query.
-/

namespace PackageAlgebra

/-- Why a token list is no query. -/
inductive ParseError
  -- An assignment does not begin its statement.
  | misplacedAssignment
  -- Nothing is assigned to a variable.
  | emptyAssignment (name : String)
  -- The name of a function has no parenthesis after it.
  | parenExpected (text : String)
  -- An operand is empty.
  | emptyOperand
  -- The parenthesis of a function or a group is not closed.
  | unclosed (text : String)
  -- A group holds several operands.
  | commaInGroup
  -- An operator has nothing on its left.
  | missingLeft (operator : String)
  -- A selector follows no term.
  | strandedSelector (text : String)
  -- A parenthesis or comma has no opening parenthesis.
  | strandedMark (text : String)
  -- A statement ends inside parentheses.
  | semicolonInParens
  -- No statement goes on with the token.
  | unexpectedToken (token : Token)
  -- The bound on the recursion was reached.
  | exhausted
  deriving DecidableEq

/-- The fault in words. -/
def ParseError.message : ParseError → String
  | misplacedAssignment => "expected \"<package> := <expr>;\""
  | emptyAssignment name => "empty expression assigned to " ++ Text.quote name
  | parenExpected text => "expected '(' after " ++ Text.quote text
  | emptyOperand => "empty expression"
  | unclosed text => "expected ')' to close " ++ Text.quote text
  | commaInGroup => "comma delimited values between parens"
  | missingLeft op => "missing left operand for " ++ Text.quote op
  | strandedSelector text => "unexpected selector " ++ Text.quote text
  | strandedMark text => "unexpected " ++ Text.quote text
  | semicolonInParens => "unexpected ';' inside parentheses"
  | unexpectedToken t => "unexpected token " ++ t.kind.label ++ " " ++ t.text
  | exhausted => "expression too deep"

/-- A place between two tokens. -/
structure Cursor where
  -- The token just passed, none at the beginning.
  passed : Option Token
  -- The tokens ahead.
  ahead : List Token

/-- Whether the token just passed is of a kind. -/
def Cursor.hasPassed (cur : Cursor) (kind : TokenKind) : Bool :=
  cur.passed.any (·.kind = kind)

/-- Terms side by side: none, the term itself, or a call without a name. -/
def juxtapose : List Expr → Option Expr
  | [] => none
  | [e] => some e
  | es => some (.call "" es)

/-- Wrap the selectors ahead around a term, the nearest first. -/
def attachSelectors (term : Expr) (passed : Option Token) : List Token → Expr × Cursor
  | [] => (term, ⟨passed, []⟩)
  | t :: rest =>
    if t.kind = .selector then attachSelectors (.select term t.text) (some t) rest
    else (term, ⟨passed, t :: rest⟩)

mutual

/-- Read what stands between two separators. `afterOperator` tells that the
    operand belongs to an operator and ends at the next one; `depth` counts the
    parentheses around it; `terms` are the terms read so far. -/
def operand : Nat → Bool → Nat → List Expr → Cursor → Except ParseError (Option Expr × Cursor)
  | 0, _, _, _, _ => .error .exhausted
  | _ + 1, _, _, terms, ⟨passed, []⟩ => .ok (juxtapose terms, ⟨passed, []⟩)
  | fuel + 1, afterOperator, depth, terms, ⟨_, t :: rest⟩ =>
    match t.kind with
    | .package =>
      match rest with
      | next :: rest' =>
        if next.kind = .assign then
          if !terms.isEmpty || afterOperator then .error .misplacedAssignment
          else
            match operand fuel false depth [] ⟨some next, rest'⟩ with
            | .error e => .error e
            | .ok (none, _) => .error (.emptyAssignment t.text)
            | .ok (some value, cur) => .ok (some (.assign t.text value), cur)
        else
          let (term, cur) := attachSelectors (.package t.text) (some t) rest
          operand fuel afterOperator depth (terms ++ [term]) cur
      | [] => operand fuel afterOperator depth (terms ++ [.package t.text]) ⟨some t, []⟩
    | .func =>
      match rest with
      | next :: rest' =>
        if next.kind = .leftParen then
          match arguments fuel t.text depth [] ⟨some next, rest'⟩ with
          | .error e => .error e
          | .ok (args, cur) =>
            let (term, cur) := attachSelectors (.call t.text args) cur.passed cur.ahead
            operand fuel afterOperator depth (terms ++ [term]) cur
        else .error (.parenExpected t.text)
      | [] => .error (.parenExpected t.text)
    | .leftParen =>
      match arguments fuel t.text depth [] ⟨some t, rest⟩ with
      | .error e => .error e
      | .ok ([arg], cur) =>
        let (term, cur) := attachSelectors arg cur.passed cur.ahead
        operand fuel afterOperator depth (terms ++ [term]) cur
      | .ok (_, _) => .error .commaInGroup
    | .op =>
      if afterOperator then .ok (juxtapose terms, ⟨some t, rest⟩)
      else
        match juxtapose terms with
        | none => .error (.missingLeft t.text)
        | some left =>
          match operators fuel depth left t.text ⟨some t, rest⟩ with
          | .error e => .error e
          | .ok (e, cur) => .ok (some e, cur)
    | .selector => .error (.strandedSelector t.text)
    | .rightParen | .comma =>
      if depth = 0 then .error (.strandedMark t.text)
      else .ok (juxtapose terms, ⟨some t, rest⟩)
    | .semicolon =>
      if depth > 0 then .error .semicolonInParens
      else .ok (juxtapose terms, ⟨some t, rest⟩)
    | .assign => .error (.unexpectedToken t)

/-- Read operands up to the parenthesis that closes the one opened by `opener`;
    `args` are those read so far. -/
def arguments : Nat → String → Nat → List Expr → Cursor →
    Except ParseError (List Expr × Cursor)
  | 0, _, _, _, _ => .error .exhausted
  | fuel + 1, opener, depth, args, cur =>
    match operand fuel false (depth + 1) [] cur with
    | .error e => .error e
    | .ok (none, _) => .error .emptyOperand
    | .ok (some arg, cur) =>
      if cur.hasPassed .comma then arguments fuel opener depth (args ++ [arg]) cur
      else if cur.hasPassed .rightParen then .ok (args ++ [arg], cur)
      else .error (.unclosed opener)

/-- Fold the operands after an operator to the left, as long as another operator
    ends one. -/
def operators : Nat → Nat → Expr → String → Cursor → Except ParseError (Expr × Cursor)
  | 0, _, _, _, _ => .error .exhausted
  | fuel + 1, depth, left, op, cur =>
    match operand fuel true depth [] cur with
    | .error e => .error e
    | .ok (none, _) => .error .emptyOperand
    | .ok (some right, cur) =>
      match cur.passed with
      | some t =>
        if t.kind = .op then operators fuel depth (.call op [left, right]) t.text cur
        else .ok (.call op [left, right], cur)
      | none => .ok (.call op [left, right], cur)

end

/-- A bound on the recursion that reading a token list never reaches. -/
def parseBound (tokens : List Token) : Nat := 2 * tokens.length + 2

/-- Read statements to the end, dropping the empty ones. -/
def statements : Nat → Cursor → Except ParseError (List Expr)
  | 0, cur => if cur.ahead.isEmpty then .ok [] else .error .exhausted
  | fuel + 1, cur =>
    if cur.ahead.isEmpty then .ok []
    else
      match operand (parseBound cur.ahead) false 0 [] cur with
      | .error e => .error e
      | .ok (e, cur) =>
        match statements fuel cur with
        | .error e => .error e
        | .ok es => .ok (e.toList ++ es)

/-- The syntax tree of a token list; none if it has no statement. -/
def parseTokens (tokens : List Token) : Except ParseError (Option Expr) :=
  match statements tokens.length ⟨none, tokens⟩ with
  | .error e => .error e
  | .ok [] => .ok none
  | .ok [e] => .ok (some e)
  | .ok es => .ok (some (.sequence es))

/-- Why a text is no query. -/
inductive QueryError
  -- It has no tokens.
  | token (cause : TokenError)
  -- Its tokens have no tree.
  | parse (cause : ParseError)
  deriving DecidableEq

/-- The fault in words. -/
def QueryError.message : QueryError → String
  | token cause => "failed to tokenize: " ++ cause.message
  | parse cause => "failed to parse: " ++ cause.message

/-- The words of a query as one text: blanks between them, a line end standing
    for a semicolon. -/
def joinWords (words : List String) : String :=
  String.ofList ((Text.join " " words).toList.map fun c => if c = '\n' then ';' else c)

/-- The syntax tree of the words of a query; none if they have no statement. -/
def parseWords (words : List String) : Except QueryError (Option Expr) :=
  match Token.scan (joinWords words) with
  | .error e => .error (.token e)
  | .ok tokens =>
    match parseTokens tokens with
    | .error e => .error (.parse e)
    | .ok tree => .ok tree

/-- A query as it is given. -/
inductive QueryText
  -- A text.
  | line (text : String)
  -- Words, as a command line has them.
  | words (texts : List String)

namespace QueryText

/-- The words of a query. -/
def texts : QueryText → List String
  | line text => [text]
  | words texts => texts

/-- Whether nothing is asked. A word without characters still asks for something. -/
def isEmpty : QueryText → Bool
  | line text => text = ""
  | words texts => texts.isEmpty

/-- The query, or a pattern if nothing is asked. -/
def orPattern (q : QueryText) (pattern : String) : QueryText :=
  if q.isEmpty then line pattern else q

/-- The syntax tree of a query; none if it has no statement. -/
def parse (q : QueryText) : Except QueryError (Option Expr) := parseWords q.texts

end QueryText

end PackageAlgebra
