import PackageAlgebra.CommandLine.Invocation
import PackageAlgebra.Report.Lines
import PackageAlgebra.Request
import PackageAlgebra.Shell.Programs

/-!
# Carrying Out Command Lines

What a command line prints.

An error of a calculation is printed on the stream for complaints, and the command fails.
A fault of a program outside and a template that cannot be filled break the command off.
The programs outside are those of `Shell.programs`.

## Main definitions

* `Ending`: How a command line ends.
* `Invocation.run`: Carry out an invocation.
* `runCommandLine`: Carry out a command line.
-/

namespace PackageAlgebra

/-- Why a request is broken off. -/
inductive Breakage
  -- A program outside could not be run.
  | fault (cause : Fault)
  -- A template cannot be filled.
  | template (cause : TemplateError)

namespace CommandLine

/-- How a command line ends. -/
inductive Ending
  -- It prints lines and succeeds.
  | printed (lines : List String)
  -- It complains and fails.
  | failed (complaint : String)
  -- It is not carried out, help having been asked for or not.
  | stopped (why : Stop)
  -- It is broken off.
  | broken (why : Breakage)

/-- The ending after a calculation, or a failure of it. -/
def Ending.after {α : Type} (outcome : Except Failure α) (print : α → Ending) : Ending :=
  match outcome with
  | .ok a => print a
  | .error (.error e) => .failed e.message
  | .error (.fault f) => .broken (.fault f)

/-- The ending that prints lines, if the template of them can be filled. -/
def Ending.ofLines (lines : Except TemplateError (List String)) : Ending :=
  match lines with
  | .ok lines => .printed lines
  | .error e => .broken (.template e)

/-- List the packages of a set. -/
def runList (settings : Settings) (files : FileSystem) (o : SourceOptions) : Ending :=
  let outcome := askFor settings files o.root o.snapshot
    (selectPackages (.words o.words) o.withStd)
  .after outcome fun selection =>
    if o.json then
      let infos := packageInfos selection.catalog selection.packages
      .printed [Document.print true (.list (infos.map PackageInfo.document))]
    else .ofLines (Report.packageRows selection.catalog selection.packages o.template)

/-- Show what cuts would remove. -/
def runCut (settings : Settings) (files : FileSystem) (o : SourceOptions) (exclude : String)
    (aligned : Bool) : Ending :=
  let excluded := if exclude = "" then none else some (QueryText.words (Text.words exclude))
  let outcome := askFor settings files o.root o.snapshot
    (analyseCuts (.words o.words) excluded o.withStd)
  .after outcome fun rows =>
    if o.json then
      .printed [Document.print false (cutDocument (Text.join " " o.words) rows)]
    else
      .ofLines ((Report.cutLines rows o.template).map fun lines =>
        if aligned then Report.align lines Report.defaultPadding else lines)

/-- Print a query, in one line or as an outline. A query without statements prints
    nothing. -/
def runParse (words : List String) (outline : Bool) : Ending :=
  match parseWords words with
  | .error e => .failed e.message
  | .ok none => .printed []
  | .ok (some e) => .printed [if outline then Report.fullLines e.outline else e.print]

/-- Carry out an invocation. Requests are not served from here. -/
def Invocation.run (settings : Settings) (files : FileSystem) : Invocation → Ending
  | .list o => runList settings files o
  | .cut o exclude aligned => runCut settings files o exclude aligned
  | .parse words outline => runParse words outline
  | .serve => .stopped .refused

/-- Carry out a command line. -/
def runCommandLine (settings : Settings) (files : FileSystem) (words : List String) : Ending :=
  match Invocation.read settings words with
  | .error why => .stopped why
  | .ok invocation => invocation.run settings files

end CommandLine

end PackageAlgebra
