import PackageAlgebra.Context.Basic
import PackageAlgebra.Document.Reader
import PackageAlgebra.Report.Rows
import PackageAlgebra.Snapshot.Checked

/-!
# Settings

What is taken for granted unless a request says something else.

Every setting has a default and may be given by a variable of the environment. The
name of the variable begins with the name of the program; its case does not matter. A
setting that is a list is written as a document, and a variable that holds the document
without a value counts as not set.

## Main definitions

* `Settings`: The settings.
* `Settings.ofEnvironment`: The settings under an environment.
-/

namespace PackageAlgebra

/-- What is taken for granted unless a request says something else. -/
structure Settings where
  -- How much is logged.
  logLevel : String := "WARNING"
  -- The root of the source tree.
  root : String := "."
  -- The path of a snapshot, which comes before the source tree.
  snapshot : Option String := none
  -- Whether packages of the standard library are shown.
  printStd : Bool := false
  -- Whether the standard library is loaded beforehand.
  prefetchStd : Bool := true
  -- The keys that are variables of the environment.
  envKeys : List String := defaultEnvKeys
  -- The template of packages.
  listTemplate : String := Report.packageTemplate
  -- The template of rows of a cut analysis.
  cutTemplate : String := Report.cutTemplate
  -- The command that writes a dump of symbols, empty if there is none.
  deadcodeCommand : List String := []
  deriving DecidableEq

/-- Why an environment gives no settings. -/
inductive SettingsError
  -- A setting that is a list is not written as a document.
  | unreadable (name : String)
  -- Settings are not of the right kind.
  | invalid (problems : List Problem)
  deriving DecidableEq

/-- What is said about a setting that is not written as a document. -/
def SettingsError.message : SettingsError → String
  | unreadable name =>
    "error parsing value for field \"" ++ name ++ "\" from source \"EnvSettingsSource\""
  | invalid problems => Problem.summary problems "Settings"

namespace Settings

/-- What the names of variables begin with. -/
def variablePrefix : String := "depcalc_"

/-- The text of the variable for a setting, the last one if there are several. -/
def textOf? (env : List (String × String)) (name : String) : Option String :=
  (env.reverse.find? fun v => Text.lower v.1 = variablePrefix ++ name).map Prod.snd

/-- The field of a setting that is a text, none if it is not set. -/
def plainField (env : List (String × String)) (name : String) : List (String × Document) :=
  (textOf? env name).toList.map fun text => (name, .text text)

/-- The field of a setting that is a list, none if it is not set. -/
def listField (env : List (String × String)) (name : String) :
    Except SettingsError (List (String × Document)) :=
  match textOf? env name with
  | none => .ok []
  | some text =>
    match Document.read text with
    | none => .error (.unreadable name)
    | some .null => .ok []
    | some d => .ok [(name, d)]

/-- Check for settings. -/
def ofFields (fields : List (String × Document)) : Checked Settings := do
  let d : Settings := {}
  let logLevel ← Document.optional fields "log_level" d.logLevel Document.asText
  let root ← Document.optional fields "root" d.root Document.asText
  let snapshot ← Document.optional fields "snapshot" d.snapshot Document.asOptionalText
  let printStd ← Document.optional fields "print_std" d.printStd Document.asBool
  let prefetchStd ← Document.optional fields "prefetch_std" d.prefetchStd Document.asBool
  let envKeys ← Document.optional fields "env_keys" d.envKeys (Document.asList Document.asText)
  let listTemplate ← Document.optional fields "list_format" d.listTemplate Document.asText
  let cutTemplate ← Document.optional fields "cut_format" d.cutTemplate Document.asText
  let deadcodeCommand ← Document.optional fields "deadcode_command" d.deadcodeCommand
    (Document.asList Document.asText)
  return { logLevel, root, snapshot, printStd, prefetchStd, envKeys, listTemplate, cutTemplate,
           deadcodeCommand }

/-- The settings under an environment. -/
def ofEnvironment (env : List (String × String)) : Except SettingsError Settings := do
  let envKeys ← listField env "env_keys"
  let command ← listField env "deadcode_command"
  let plain := ["log_level", "root", "snapshot", "print_std", "prefetch_std", "list_format",
    "cut_format"].flatMap (plainField env)
  match (ofFields (plain ++ envKeys ++ command)).run with
  | .ok settings => .ok settings
  | .error problems => .error (.invalid problems)

end Settings

end PackageAlgebra
