import PackageAlgebra.Script.Expression

/-!
# Patterns of Cases

The rules for what a case of a `match` statement is compared with.

A pattern names, compares, and takes values apart; it calls nothing. What is kept of
it are the expressions within: the values that it compares with and the classes that
it asks for.

## Main definitions

* `patternRule`: A pattern without commas outside brackets.
* `casePattern`: The pattern of a case.
-/

namespace PackageAlgebra.Script

open TokenParser

/-- Refuse if a parser would accept what comes next. -/
def unlessNext {α : Type} (p : Parser α) : Parser Unit := do
  let next ← accepts p
  require (!next)

/-- Take a number, `imaginary` telling of which kind it has to be. -/
def numberOf (imaginary : Bool) : Parser Unit := take fun
  | .number i => if i = imaginary then some () else none
  | _ => none

/-- A number with a sign, or the sum of a real and an imaginary one. -/
def numberPattern : Parser Tree :=
  (do
    let _ ← optionally (mark "-")
    numberOf true <|> numberOf false
    unlessNext (markAmong ["+", "-"])
    return .form []) <|>
  (do
    let _ ← optionally (mark "-")
    numberOf false
    markAmong ["+", "-"]
    numberOf true
    return .form [])

/-- A value that is written out. -/
def literalPattern (g : Grammar) : Parser Tree :=
  numberPattern <|>
  (do
    let ls ← literalRun
    match literals g ls with
    | some t => return t
    | none => failure) <|>
  (do
    word "None" <|> word "True" <|> word "False"
    return .form [])

/-- The marks after which a name in a pattern is not one that takes a value. -/
def namePatternEnd : Parser Unit := markAmong [".", "(", "="]

/-- A name that takes a value. -/
def captureName : Parser Unit := do
  let id ← identifier
  require (id ≠ "_")
  unlessNext namePatternEnd

/-- A name, or the member of a module or a class. -/
def dottedName : Parser Tree := do
  let first ← identifier
  let members ← many (do mark "."; identifier)
  return members.foldl .member (.name first)

/-- The member of a module or a class, which is compared with. -/
def valuePattern : Parser Tree := do
  let t ← dottedName
  match t with
  | .member _ _ => return t
  | _ => failure

/-- A pattern, or a star before a name that takes the values left over. -/
def starPattern (g : Grammar) : Parser Tree :=
  (do
    mark "*"
    captureName <|> word "_"
    return .form []) <|> g.pattern

/-- Patterns between commas, in brackets that a mark closes. A single one needs a
    comma after it only if it has a star and the brackets are parentheses. -/
def sequencePattern (g : Grammar) (closing : String) : Parser Tree :=
  (do
    mark closing
    return .form []) <|>
  (do
    let starred ← accepts (mark "*")
    let first ← starPattern g
    let comma ← optionally (mark ",")
    let others ← if comma then optional (separatedEnd (starPattern g)) else pure none
    mark closing
    require (!starred || comma || closing ≠ ")")
    return .form (first :: others.getD []))

/-- A key with the pattern of its value, or the name that takes all other entries. -/
def entryPattern (g : Grammar) : Parser (Option (Tree × Tree)) :=
  (do
    mark "**"
    captureName
    return none) <|>
  (do
    let key ← literalPattern g <|> valuePattern
    mark ":"
    return some (key, ← g.pattern))

/-- What stands between braces: entries, the name that takes all others at last. -/
def mappingPattern (g : Grammar) : Parser Tree := do
  let entries := (← optional (separatedEnd (entryPattern g))).getD []
  mark "\x7d"
  require (entries.dropLast.all Option.isSome)
  let pairs := entries.filterMap fun entry => entry
  return .form (pairs.map Prod.fst ++ pairs.map Prod.snd)

/-- A pattern for an attribute of an object, `true` with it if it has a name. -/
def attributePattern (g : Grammar) : Parser (Bool × Tree) :=
  (do
    let _ ← identifier
    mark "="
    return (true, ← g.pattern)) <|>
  (do return (false, ← g.pattern))

/-- A class with the patterns of attributes, those without a name first. -/
def classPattern (g : Grammar) : Parser Tree := do
  let owner ← dottedName
  mark "("
  let attributes := (← optional (separatedEnd (attributePattern g))).getD []
  mark ")"
  require ((attributes.dropWhile fun a => !a.1).all Prod.fst)
  return .form (owner :: attributes.map Prod.snd)

/-- A pattern without alternatives. -/
def closedPattern (g : Grammar) : Parser Tree :=
  literalPattern g <|>
  (do
    captureName
    return .form []) <|>
  (do
    word "_"
    return .form []) <|>
  (do
    let t ← valuePattern
    unlessNext namePatternEnd
    return t) <|>
  (do mark "("; sequencePattern g ")") <|>
  (do mark "["; sequencePattern g "]") <|>
  (do mark "\x7b"; mappingPattern g) <|>
  classPattern g

/-- A pattern without commas outside brackets: alternatives, and a name for the
    value that one of them fits. -/
def patternRule (g : Grammar) : Parser Tree := do
  let first ← closedPattern g
  let others ← many (do mark "|"; closedPattern g)
  let t : Tree := if others.isEmpty then first else .form (first :: others)
  (do
    word "as"
    captureName
    return .form [t]) <|> (do
    unlessNext (word "as")
    return t)

/-- The pattern of a case: one without a star, or several between commas. -/
def casePattern (g : Grammar) : Parser Tree := do
  let starred ← accepts (mark "*")
  let first ← starPattern g
  let comma ← optionally (mark ",")
  let others ← if comma then optional (separatedEnd (starPattern g)) else pure none
  require (!starred || comma)
  return .form (first :: others.getD [])

end PackageAlgebra.Script
