import PackageAlgebra.CommandLine.Options
import PackageAlgebra.Query.Parser
import PackageAlgebra.Settings
import PackageAlgebra.Text.Blank

/-!
# Invocations

What a command line asks for.

There are four commands. Two take a query and say where packages come from, one prints a
query, and one would serve requests. An option that is left out has the value of the
settings.

## Main definitions

* `Invocation`: A command with what it has been given.
* `Invocation.read`: The invocation of a command line.
-/

namespace PackageAlgebra.CommandLine

/-- What the commands about packages have in common. -/
structure SourceOptions where
  -- The query.
  words : List String
  -- The root of the source tree, if one is given.
  root : Option String
  -- The path of the snapshot, if one is given.
  snapshot : Option String
  -- Whether packages of the standard library are wanted.
  withStd : Bool
  -- Whether the answer is a document.
  json : Bool
  -- The template of a line.
  template : String
  deriving DecidableEq

/-- A command with what it has been given. -/
inductive Invocation
  -- List the packages of a set.
  | list (options : SourceOptions)
  -- Show what cuts would remove.
  | cut (options : SourceOptions) (exclude : String) (aligned : Bool)
  -- Print a query.
  | parse (words : List String) (outline : Bool)
  -- Serve requests.
  | serve
  deriving DecidableEq

/-- An option that is there or not. -/
def flag (name : String) : OptionSpec := { names := [name], takesValue := false }

/-- An option with a value. -/
def valued (name : String) : OptionSpec := { names := [name], takesValue := true }

/-- The options of the commands about packages. -/
def sourceSpecs : List OptionSpec :=
  [valued "--root", valued "--snapshot", flag "--std", flag "--json",
    { names := ["-f", "--format"], takesValue := true }]

/-- Whether a text is a whole number, blanks around it and underscores between its digits
    being allowed. -/
def isWholeNumber (text : String) : Bool :=
  let cs := (Text.trim text).toList
  let digits := match cs with
    | '+' :: rest => rest
    | '-' :: rest => rest
    | cs => cs
  (Text.splitAt '_' digits).all fun group => !group.isEmpty && group.all Char.isDigit

/-- The options of the command that serves requests. -/
def serveSpecs : List OptionSpec :=
  [valued "--host", { names := ["--port"], takesValue := true, allows := isWholeNumber },
    flag "--reload"]

/-- What the commands about packages have been given. -/
def sourceOptions (settings : Settings) (template : String) (g : Given) : SourceOptions where
  words := g.words.getD []
  root := g.value? "--root"
  snapshot := g.value? "--snapshot"
  withStd := settings.printStd || g.has "--std"
  json := g.has "--json"
  template := (g.value? "--format").getD template

/-- The invocation of a command by name. -/
def Invocation.ofCommand (settings : Settings) (command : String) (words : List String) :
    Except Stop Invocation :=
  match command with
  | "list" => do
    let g ← readWords sourceSpecs (some 0) words
    return .list (sourceOptions settings settings.listTemplate g)
  | "cut" => do
    let g ← readWords (sourceSpecs ++ [valued "--exclude", flag "--noalign"]) (some 0) words
    return .cut (sourceOptions settings settings.cutTemplate g)
      ((g.value? "--exclude").getD "") (!g.has "--noalign")
  | "parse" => do
    let g ← readWords [flag "--tree"] (some 1) words
    return .parse (g.words.getD []) (g.has "--tree")
  | "serve" => do
    let _ ← readWords serveSpecs none words
    return .serve
  | _ => .error .refused

/-- The invocation of a command line. -/
def Invocation.read (settings : Settings) (words : List String) : Except Stop Invocation := do
  let (g, rest) ← readCommand [valued "--log-level"] words
  match rest with
  | [] => .error .refused
  | command :: words =>
    let invocation ← Invocation.ofCommand settings command words
    if g.tooMany then .error .refused else return invocation

end PackageAlgebra.CommandLine
