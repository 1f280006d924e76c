import PackageAlgebra.Text.Quoted
import PackageAlgebra.Text.Pieces

/-!
# Tokens

The words of a query and how a text is cut into them.

A name is a run of letters, digits, points and a few marks that package paths
use. A name, a plus or a minus that is directly followed by a parenthesis is
the name of a function. A colon announces a selector, or an assignment when an
equals sign follows. The blank separates; no other character is skipped, so a
token list spelled out again is the text without its blanks.

An equals sign may stand in the name of a function, where it sets a build tag,
and nowhere else.

## Main definitions

* `Token`: A kind and the text it was read from.
* `TokenError`: Why a text has no tokens.
* `Token.scan`: The tokens of a text.
-/

namespace PackageAlgebra

/-- What a token stands for. -/
inductive TokenKind
  -- The name of a package, a pattern or a variable.
  | package
  -- An operator between operands.
  | op
  -- The mark between arguments.
  | comma
  -- A selector, without its colon.
  | selector
  -- The name of a function, its parenthesis not included.
  | func
  -- An opening parenthesis.
  | leftParen
  -- A closing parenthesis.
  | rightParen
  -- The mark between statements.
  | semicolon
  -- The mark between a variable and its value.
  | assign
  deriving DecidableEq

/-- The word that a message uses for a kind. -/
def TokenKind.label : TokenKind → String
  | .package => "PACKAGE"
  | .op => "OP"
  | .comma => "COMMA"
  | .selector => "SELECTOR"
  | .func => "FUNC"
  | .leftParen => "LEFT_PAREN"
  | .rightParen => "RIGHT_PAREN"
  | .semicolon => "SEMICOLON"
  | .assign => "ASSIGN"

/-- A word of a query. -/
structure Token where
  -- What the word stands for.
  kind : TokenKind
  -- The text it was read from, a selector without its colon.
  text : String
  deriving DecidableEq

/-- Why a text has no tokens. Positions count characters from zero. -/
inductive TokenError
  -- A name with an equals sign is not followed by a parenthesis.
  | assignInName (name : String) (position : Nat)
  -- Nothing that could be a selector follows a colon.
  | selectorExpected (position : Nat)
  -- No token begins with the character.
  | unknownSymbol (symbol : Char) (position : Nat)
  deriving DecidableEq

namespace TokenError

/-- Where the fault lies. -/
def position : TokenError → Nat
  | assignInName _ p => p
  | selectorExpected p => p
  | unknownSymbol _ p => p

/-- The fault in words. -/
def message : TokenError → String
  | assignInName name _ => "package name " ++ Text.quote name ++ " shouldn't contain '='"
  | selectorExpected p => "expected selector at " ++ Text.decimalNat p
  | unknownSymbol c p => "unknown symbol at " ++ Text.decimalNat p ++ ": " ++ c.toString

end TokenError

namespace Token

/-- Whether a name may begin with the character. -/
def beginsName (c : Char) : Bool := c = '.' || c.isAlphanum

/-- Whether a name may go on with the character. -/
def continuesName (c : Char) : Bool :=
  beginsName c || c = '@' || c = '_' || c = '-' || c = '/' || c = '='

/-- Whether the character is an operator, or the mark that makes a selector add
    to its operand or take away from it. -/
def isOperator (c : Char) : Bool := c = '+' || c = '-'

/-- The run of name characters at the head of a text. -/
def nameRun (cs : List Char) : List Char := cs.takeWhile continuesName

/-- What follows the run of name characters at the head of a text. -/
def afterName (cs : List Char) : List Char := cs.dropWhile continuesName

/-- What follows a run of name characters is no longer than the text. -/
theorem length_afterName_le (cs : List Char) : (afterName cs).length ≤ cs.length :=
  (List.dropWhile_suffix continuesName).length_le

/-- The tokens of a list of characters that stands at a position of the text. -/
def scanFrom (position : Nat) : List Char → Except TokenError (List Token)
  | [] => .ok []
  | c :: rest =>
    if c = ' ' then scanFrom (position + 1) rest
    else if beginsName c then
      let name := String.ofList (c :: nameRun rest)
      let next := position + 1 + (nameRun rest).length
      if (afterName rest).head? = some '(' then
        (⟨.func, name⟩ :: ·) <$> scanFrom next (afterName rest)
      else if c = '=' || (nameRun rest).contains '=' then .error (.assignInName name position)
      else (⟨.package, name⟩ :: ·) <$> scanFrom next (afterName rest)
    else if c = '(' then (⟨.leftParen, "("⟩ :: ·) <$> scanFrom (position + 1) rest
    else if c = ')' then (⟨.rightParen, ")"⟩ :: ·) <$> scanFrom (position + 1) rest
    else if c = ',' then (⟨.comma, ","⟩ :: ·) <$> scanFrom (position + 1) rest
    else if c = ';' then (⟨.semicolon, ";"⟩ :: ·) <$> scanFrom (position + 1) rest
    else if c = ':' then
      match rest with
      | [] => .error (.selectorExpected (position + 1))
      | d :: rest' =>
        if d = '=' then (⟨.assign, ":="⟩ :: ·) <$> scanFrom (position + 2) rest'
        else if beginsName d || isOperator d then
          (⟨.selector, String.ofList (d :: nameRun rest')⟩ :: ·) <$>
            scanFrom (position + 2 + (nameRun rest').length) (afterName rest')
        else .error (.selectorExpected (position + 1))
    else if isOperator c then
      if rest.head? = some '(' then (⟨.func, c.toString⟩ :: ·) <$> scanFrom (position + 1) rest
      else (⟨.op, c.toString⟩ :: ·) <$> scanFrom (position + 1) rest
    else .error (.unknownSymbol c position)
termination_by cs => cs.length
decreasing_by
  all_goals simp only [List.length_cons]
  all_goals first
    | omega
    | exact Nat.lt_succ_of_le (length_afterName_le _)
    | exact Nat.lt_succ_of_lt (Nat.lt_succ_of_le (length_afterName_le _))

/-- The tokens of a text, or why it has none. -/
def scan (s : String) : Except TokenError (List Token) := scanFrom 0 s.toList

end Token

end PackageAlgebra
