import PackageAlgebra.Text.Pieces

/-!
# Options

How the words of a command line are told apart.

A word that begins with a dash is an option, unless it is a dash alone, a negative
number, or an unknown word with a blank in it. A long option may be shortened as long as
it stays the only one that begins so, and its value may follow an equals sign. A short
option may be followed at once by its value. After two dashes alone every word is a
plain one.

Plain words are taken together: those up to the next option are all that a command
gets, and further ones are too many.

## Main definitions

* `OptionSpec`: An option that a command knows.
* `classify`: The words of a command line, told apart.
* `readWords`: The options and plain words of a command.
* `readCommand`: The options before a command, and the words from the command on.
-/

namespace PackageAlgebra.CommandLine

/-- An option that a command knows. -/
structure OptionSpec where
  -- What it may be called, its long name last.
  names : List String
  -- Whether it takes a value.
  takesValue : Bool
  -- Whether it takes a certain value.
  allows : String → Bool := fun _ => true

/-- The long name of an option. -/
def OptionSpec.name (o : OptionSpec) : String := o.names.getLast?.getD ""

/-- The option that asks for help. -/
def helpOption : OptionSpec := { names := ["-h", "--help"], takesValue := false }

/-- Why a command line is not carried out. -/
inductive Stop
  -- It asks for help.
  | help
  -- It is not well formed.
  | refused
  deriving DecidableEq

/-- A word of a command line, told apart. -/
inductive Item
  -- A plain word.
  | plain (text : String)
  -- The two dashes after which every word is plain.
  | dashes
  -- An option, with the value that belongs to the word itself if it takes one.
  | option (spec : OptionSpec) (value : Option String)
  -- An option that asks for help, followed at once by the letters of further ones.
  | joined (letters : List Char)
  -- An option with a value although it takes none.
  | misused
  -- An option that the command does not know.
  | unknown

/-- The options that have a name with a property, once for each such name. -/
def optionsBy (specs : List OptionSpec) (p : String → Bool) : List OptionSpec :=
  specs.flatMap fun o => (o.names.filter p).map fun _ => o

/-- The two sides of the first equals sign, if there is one. -/
def splitValue (text : String) : String × Option String :=
  match Text.cutFirst '=' text.toList with
  | some (name, value) => (String.ofList name, some (String.ofList value))
  | none => (text, none)

/-- An option with the value after an equals sign, if there is one. -/
def Item.ofOption (o : OptionSpec) (value : Option String) : Item :=
  if value.isSome && !o.takesValue then misused else option o value

/-- What a word that is no name of an option may be short for: with two dashes the
    beginning of a name, with one dash a short option and its value. Of the short options
    only the one that asks for help takes none. -/
def interpretations (specs : List OptionSpec) (text : String) : List Item :=
  if Text.beginsWith "--" text then
    let (name, value) := splitValue text
    (optionsBy specs (Text.beginsWith name)).map fun o => Item.ofOption o value
  else
    let short := String.ofList (text.toList.take 2)
    let value := text.toList.drop 2
    (optionsBy specs (· = short)).map fun o =>
      if o.takesValue then .option o (some (String.ofList value)) else .joined value

/-- Whether a word is a negative number. -/
def isNegativeNumber (text : String) : Bool :=
  match text.toList with
  | '-' :: cs =>
    let after := cs.dropWhile Char.isDigit
    match after with
    | [] => !cs.isEmpty
    | ['\n'] => !(cs.head? = some '\n')
    | '.' :: digits =>
      let digits := if digits.getLast? = some '\n' then digits.dropLast else digits
      !digits.isEmpty && digits.all Char.isDigit
    | _ => false
  | _ => false

/-- Tell a word apart. -/
def classifyWord (specs : List OptionSpec) (text : String) : Except Stop Item :=
  if !Text.beginsWith "-" text then .ok (.plain text)
  else
    match optionsBy specs (· = text) with
    | o :: _ => .ok (.option o none)
    | [] =>
      if text = "-" then .ok (.plain text)
      else
        let (name, value) := splitValue text
        match value, optionsBy specs (· = name) with
        | some value, o :: _ => .ok (Item.ofOption o (some value))
        | _, _ =>
          match interpretations specs text with
          | [item] => .ok item
          | _ :: _ :: _ => .error .refused
          | [] =>
            if isNegativeNumber text || text.toList.contains ' ' then .ok (.plain text)
            else .ok .unknown

/-- The words of a command line, told apart. -/
def classify (specs : List OptionSpec) : List String → Except Stop (List Item)
  | [] => .ok []
  | text :: rest =>
    if text = "--" then .ok (.dashes :: rest.map .plain)
    else do
      let item ← classifyWord specs text
      return item :: (← classify specs rest)

/-- What a command has been given. -/
structure Given where
  -- The options by their long names, with their values, in order.
  options : List (String × String) := []
  -- The plain words, once they have been taken.
  words : Option (List String) := none
  -- Whether there is anything that the command does not take.
  tooMany : Bool := false

namespace Given

/-- The last value of an option. -/
def value? (g : Given) (name : String) : Option String :=
  (g.options.reverse.find? fun o => o.1 = name).map Prod.snd

/-- Whether an option has been given. -/
def has (g : Given) (name : String) : Bool := (g.value? name).isSome

/-- Add an option, unless it does not allow its value. -/
def add (g : Given) (o : OptionSpec) (value : String) : Except Stop Given :=
  if o.allows value then .ok { g with options := g.options ++ [(o.name, value)] }
  else .error .refused

end Given

/-- What the letters after an option that asks for help come to. Help is given unless the
    last option among them has a value although it takes none, or none although it takes
    one; a letter that is no option ends the word. -/
def joinedOptions (specs : List OptionSpec) (valueFollows : Bool) : List Char → Stop
  | [] => .help
  | c :: rest =>
    if c = '-' then .refused
    else
      match optionsBy specs (· = String.ofList ['-', c]) with
      | [] => .help
      | o :: _ =>
        if o.takesValue then if rest.isEmpty && !valueFollows then .refused else .help
        else if rest.head? = some '=' then .refused
        else joinedOptions specs valueFollows rest

/-- The plain words at the beginning of a list, and the rest. -/
def plainRun : List Item → List Item × List Item
  | .plain text :: rest =>
    let (run, rest) := plainRun rest
    (.plain text :: run, rest)
  | .dashes :: rest =>
    let (run, rest) := plainRun rest
    (.dashes :: run, rest)
  | rest => ([], rest)

/-- The texts of plain words, the dashes before them left out. -/
def plainTexts : List Item → List String
  | .plain text :: rest => text :: plainTexts rest
  | _ :: rest => plainTexts rest
  | [] => []

/-- Whether a plain word comes next. -/
def plainFollows : List Item → Bool
  | .plain _ :: _ => true
  | _ => false

/-- Read options and plain words. `minimum` is how many plain words there have to be,
    none if the command takes no plain words. The bound on the recursion is the number of
    words. -/
def readItems (specs : List OptionSpec) (minimum : Option Nat) :
    Nat → Given → List Item → Except Stop Given
  | 0, _, _ => .error .refused
  | _ + 1, g, [] => .ok g
  | fuel + 1, g, item :: rest =>
    match item with
    | .unknown => readItems specs minimum fuel { g with tooMany := true } rest
    | .misused => .error .refused
    | .joined letters => .error (joinedOptions specs (plainFollows rest) letters)
    | .option o none =>
      if o.takesValue then
        match rest with
        | .plain value :: rest => do readItems specs minimum fuel (← g.add o value) rest
        | _ => .error .refused
      else if o.name = helpOption.name then .error .help
      else do readItems specs minimum fuel (← g.add o o.name) rest
    | .option o (some value) => do readItems specs minimum fuel (← g.add o value) rest
    | _ =>
      let (run, rest) := plainRun (item :: rest)
      let texts := plainTexts run
      if g.words.isNone && minimum.any (· ≤ texts.length) then
        readItems specs minimum fuel { g with words := some texts } rest
      else readItems specs minimum fuel { g with tooMany := true } rest

/-- The options and plain words of a command. -/
def readWords (specs : List OptionSpec) (minimum : Option Nat) (words : List String) :
    Except Stop Given := do
  let specs := helpOption :: specs
  let g ← readItems specs minimum (words.length + 1) {} (← classify specs words)
  if g.tooMany || (g.words.isNone && minimum.any (0 < ·)) then .error .refused
  else return g

/-- The options before a command, the words from the command on, and whether there is an
    option that is not known. -/
def readItemsBefore (specs : List OptionSpec) :
    Nat → Given → List (Item × String) → Except Stop (Given × List String)
  | 0, _, _ => .error .refused
  | _ + 1, _, [] => .error .refused
  | fuel + 1, g, (item, text) :: rest =>
    match item with
    | .unknown => readItemsBefore specs fuel { g with tooMany := true } rest
    | .misused => .error .refused
    | .joined letters =>
      .error (joinedOptions specs (plainFollows (rest.map Prod.fst)) letters)
    | .option o none =>
      if o.takesValue then
        match rest with
        | (.plain value, _) :: rest => do readItemsBefore specs fuel (← g.add o value) rest
        | _ => .error .refused
      else .error .help
    | .option o (some value) => do readItemsBefore specs fuel (← g.add o value) rest
    | .plain _ => .ok (g, text :: rest.map Prod.snd)
    | .dashes => .error .refused

/-- The options before a command, and the words from the command on. -/
def readCommand (specs : List OptionSpec) (words : List String) :
    Except Stop (Given × List String) := do
  let specs := helpOption :: specs
  readItemsBefore specs (words.length + 1) {} ((← classify specs words).zip words)

end PackageAlgebra.CommandLine
