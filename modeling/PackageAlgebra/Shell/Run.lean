import PackageAlgebra.OrderedMap
import PackageAlgebra.Shell.Command
import PackageAlgebra.Text.Pieces

/-!
# Running Shell Scripts

What a script writes and how it ends.

Only the commands that a shell brings along are run; any other name is that of no
command. A script has two streams, and what it reads is empty.

## Main definitions

* `Shell.State`: A script while it runs.
* `Shell.expand`: The texts that a word stands for.
* `Shell.run`: Run a command.
* `Shell.runScript`: Run a script.
-/

namespace PackageAlgebra.Shell

/-- Where text goes. -/
inductive Sink
  -- To the usual stream.
  | output
  -- To the stream for complaints.
  | errors
  -- To nobody.
  | nowhere
  deriving DecidableEq

/-- Where the text of the two streams goes. -/
structure Streams where
  -- Where the text of the usual stream goes.
  output : Sink := .output
  -- Where complaints go.
  errors : Sink := .errors

/-- A script while it runs. -/
structure State where
  -- The name of the script.
  name : String
  -- Its arguments.
  arguments : List String
  -- Its variables.
  bindings : OrderedMap String String
  -- How the last command ended.
  status : Nat := 0
  -- Whether the script has ended.
  finished : Bool := false
  -- The signal that ended it, if one did.
  signal : Option Nat := none
  -- What has been written to the usual stream.
  output : String := ""
  -- What has been written to the stream for complaints.
  errors : String := ""

namespace State

/-- Write a text. -/
def write (s : State) (sink : Sink) (text : String) : State :=
  match sink with
  | .output => { s with output := s.output ++ text }
  | .errors => { s with errors := s.errors ++ text }
  | .nowhere => s

/-- End a command. -/
def ended (s : State) (status : Nat) : State := { s with status := status }

/-- Complain about a command, and end it. -/
def complain (s : State) (streams : Streams) (complaint : String) (status : Nat) : State :=
  (s.write streams.errors (s.name ++ ": 1: " ++ complaint ++ "\n")).ended status

/-- The number that the script itself goes by among the programs that run. -/
def ownNumber : String := "1"

/-- The value of a parameter that stands for one text, if it has one. -/
def value? (s : State) (parameter : String) : Option String :=
  if parameter = "#" then some (Text.decimalNat s.arguments.length)
  else if parameter = "?" then some (Text.decimalNat s.status)
  else if parameter = "$" then some ownNumber
  else if parameter = "0" then some s.name
  else
    match parameter.toList with
    | [d] => if d.isDigit then s.arguments[d.toNat - '1'.toNat]? else s.bindings.get? parameter
    | _ => s.bindings.get? parameter

/-- The value of a parameter, or what stands for it. -/
def substituted (s : State) (parameter : String) (substitute : Option Substitute) : String :=
  let value := s.value? parameter
  match substitute with
  | none => value.getD ""
  | some other =>
    if value.any (fun v => v ≠ "" || !other.emptyIsMissing) = other.forPresent then other.text
    else value.getD ""

end State

/-- The texts of a word that is being put together: those that are complete, and the
    one being read, if any has begun. -/
structure Fields where
  -- The complete texts, the last one first.
  complete : List String := []
  -- The text being read.
  current : Option String := none

namespace Fields

/-- Add characters to the text being read, which begins if it has not. -/
def add (f : Fields) (text : String) : Fields :=
  { f with current := some (f.current.getD "" ++ text) }

/-- End the text being read. -/
def cut (f : Fields) : Fields :=
  match f.current with
  | some text => ⟨text :: f.complete, none⟩
  | none => f

/-- Add characters, which blanks split. -/
def addSplit (f : Fields) (text : String) : Fields :=
  text.toList.foldl (fun f c =>
    if c = ' ' ∨ c = '\t' ∨ c = '\n' then f.cut else f.add (String.ofList [c])) f

/-- Add texts that are apart from each other. -/
def addEach (f : Fields) (add : Fields → String → Fields) : List String → Fields
  | [] => f
  | [text] => add f text
  | text :: rest => addEach (add f text).cut add rest

/-- All texts. -/
def toList (f : Fields) : List String := f.cut.complete.reverse

end Fields

/-- Add a part of a word. -/
def addPart (s : State) (f : Fields) : WordPart → Fields
  | .text cs quoted => if cs.isEmpty && !quoted then f else f.add (String.ofList cs)
  | .parameter name substitute quoted =>
    if name = "@" then f.addEach (if quoted then Fields.add else Fields.addSplit) s.arguments
    else if name = "*" then
      if quoted then f.add (Text.join " " s.arguments) else f.addEach Fields.addSplit s.arguments
    else if quoted then f.add (s.substituted name substitute)
    else f.addSplit (s.substituted name substitute)

/-- The texts that a word stands for. -/
def expand (s : State) (w : Word) : List String := (w.foldl (addPart s) {}).toList

/-- The single text that a word stands for where nothing is split. -/
def expandWhole (s : State) (w : Word) : String := Text.join " " (expand s w)

/-- Send the text of a stream elsewhere. -/
def redirect (s : State) (streams : Streams) (r : Redirection) : Streams :=
  let target := expandWhole s r.target
  let sink :=
    if r.operator = ">&" then
      if target = "1" then streams.output else if target = "2" then streams.errors else .nowhere
    else if target = "/dev/stderr" then streams.errors
    else if target = "/dev/stdout" then streams.output
    else .nowhere
  if Text.beginsWith ">" r.operator then
    match r.stream with
    | none => { streams with output := sink }
    | some 1 => { streams with output := sink }
    | some 2 => { streams with errors := sink }
    | some _ => streams
  else streams

/-- The character that a letter stands for after a backslash. -/
def escapes : List (Char × Char) :=
  [('a', '\x07'), ('b', '\x08'), ('f', '\x0c'), ('n', '\n'), ('r', '\r'), ('t', '\t'),
    ('v', '\x0b'), ('\\', '\\')]

/-- A text with its escapes, and whether none of them ends it. -/
def unescape : List Char → List Char × Bool
  | '\\' :: c :: rest =>
    if c = 'c' then ([], false)
    else
      let (later, goesOn) := unescape rest
      match escapes.lookup c with
      | some d => (d :: later, goesOn)
      | none => ('\\' :: c :: later, goesOn)
  | c :: rest =>
    let (later, goesOn) := unescape rest
    (c :: later, goesOn)
  | [] => ([], true)

/-- Write words with blanks between them. -/
def echo (s : State) (streams : Streams) (args : List String) : State :=
  let (args, ended) := match args with
    | "-n" :: rest => (rest, false)
    | args => (args, true)
  let (cs, goesOn) := unescape (Text.join " " args).toList
  let line := String.ofList cs ++ if ended && goesOn then "\n" else ""
  (s.write streams.output line).ended 0

/-- A text with its directives replaced by arguments, and the arguments left. -/
def fill : List Char → List String → List Char × List String
  | '%' :: '%' :: rest, args =>
    let (later, args) := fill rest args
    ('%' :: later, args)
  | '%' :: c :: rest, args =>
    if c = 's' ∨ c = 'd' ∨ c = 'b' then
      let (later, left) := fill rest args.tail
      let missing := if c = 'd' then "0" else ""
      ((args.head?.getD missing).toList ++ later, left)
    else
      let (later, left) := fill rest args
      ('%' :: c :: later, left)
  | c :: rest, args =>
    let (later, left) := fill rest args
    (c :: later, left)
  | [], args => ([], args)

/-- A text with directives, repeated until no argument is left. -/
def fillAll (template : List Char) : Nat → List String → List Char
  | 0, _ => []
  | n + 1, args =>
    let (cs, left) := fill template args
    if left.isEmpty || left.length = args.length then cs else cs ++ fillAll template n left

/-- A number of a script, if a text is one. -/
def number? (text : String) : Option Nat :=
  if text = "" ∨ !text.toList.all Char.isDigit then none
  else some (text.toList.foldl (fun n d => 10 * n + (d.toNat - '0'.toNat)) 0)

/-- End the script. -/
def exit (s : State) (streams : Streams) (args : List String) : State :=
  match args with
  | [] => { s with finished := true }
  | arg :: _ =>
    match number? arg with
    | some n => { s with finished := true, status := n % 256 }
    | none => { s.complain streams ("exit: Illegal number: " ++ arg) 2 with finished := true }

/-- The signals that a script may send to itself, by name. -/
def signals : List (String × Nat) := [("HUP", 1), ("INT", 2), ("KILL", 9), ("TERM", 15)]

/-- The signal that a text names, by number or by name. -/
def signal? (text : String) : Option Nat := (number? text).orElse fun _ => signals.lookup text

/-- Send a signal. Only the script itself can be reached, which it ends. -/
def kill (s : State) (streams : Streams) (args : List String) : State :=
  let (signal, targets) := match args with
    | "-s" :: name :: rest => (signal? name, rest)
    | arg :: rest =>
      if Text.beginsWith "-" arg then (signal? (String.ofList (arg.toList.drop 1)), rest)
      else (signals.lookup "TERM", arg :: rest)
    | [] => (none, [])
  match signal with
  | none =>
    s.complain streams "kill: usage: kill [-s sigspec | -signum | -sigspec] [pid | job]..." 2
  | some 0 => s.ended 0
  | some n =>
    if targets.contains State.ownNumber then { s with finished := true, signal := some n }
    else s.complain streams "kill: No such process" 1

/-- Whether a condition on texts holds; none if it is not of a known form. -/
def holds? : List String → Option Bool
  | [] => some false
  | "!" :: rest => (holds? rest).map (!·)
  | [a] => some (a ≠ "")
  | ["-n", a] => some (a ≠ "")
  | ["-z", a] => some (a = "")
  | [a, "=", b] => some (a = b)
  | [a, "!=", b] => some (a ≠ b)
  | [a, "-eq", b] => some (number? a = number? b)
  | [a, "-ne", b] => some (number? a ≠ number? b)
  | [a, "-gt", b] => some ((number? a).getD 0 > (number? b).getD 0)
  | [a, "-ge", b] => some ((number? a).getD 0 ≥ (number? b).getD 0)
  | [a, "-lt", b] => some ((number? a).getD 0 < (number? b).getD 0)
  | [a, "-le", b] => some ((number? a).getD 0 ≤ (number? b).getD 0)
  | _ => none

/-- End a command by whether a condition holds. -/
def decideStatus (s : State) : Option Bool → State
  | some true => s.ended 0
  | some false => s.ended 1
  | none => s.ended 2

/-- Run a command by name. -/
def runNamed (s : State) (streams : Streams) (name : String) (args : List String) : State :=
  match name with
  | "echo" => echo s streams args
  | "printf" =>
    match args with
    | [] => s.complain streams "printf: usage: printf format [arg ...]" 2
    | template :: args =>
      let cs := fillAll (unescape template.toList).1 (args.length + 1) args
      (s.write streams.output (String.ofList cs)).ended 0
  | "true" | ":" => s.ended 0
  | "false" => s.ended 1
  | "exit" => exit s streams args
  | "kill" => kill s streams args
  | "test" => decideStatus s (holds? args)
  | "[" => decideStatus s (if args.getLast? = some "]" then holds? args.dropLast else none)
  | _ => s.complain streams (name ++ ": not found") 127

/-- Set variables. -/
def assign (s : State) (assignments : List (String × Word)) : State :=
  assignments.foldl (fun s (name, value) =>
    { s with bindings := s.bindings.insert name (expandWhole s value) }) s

/-- Run a command, unless the script has ended. -/
def run (streams : Streams) : Command → State → State
  | .skip, s => s
  | .simple assignments words redirections, s =>
    if s.finished then s
    else
      let streams := redirections.foldl (redirect s) streams
      match words.flatMap (expand s) with
      | [] => (assign s assignments).ended 0
      | name :: args => runNamed s streams name args
  | .sequence first second, s => run streams second (run streams first s)
  | .andThen first second, s =>
    let s := run streams first s
    if s.finished || s.status ≠ 0 then s else run streams second s
  | .orElse first second, s =>
    let s := run streams first s
    if s.finished || s.status = 0 then s else run streams second s
  | .negation c, s =>
    let s := run streams c s
    if s.finished then s else s.ended (if s.status = 0 then 1 else 0)
  | .forEach name items body, s =>
    if s.finished then s
    else
      let texts := match items with
        | some words => words.flatMap (expand s)
        | none => s.arguments
      texts.foldl (fun s text =>
        if s.finished then s
        else run streams body { s with bindings := s.bindings.insert name text }) (s.ended 0)
  | .conditional test body otherwise, s =>
    let s := run streams test s
    if s.finished then s
    else if s.status = 0 then run streams body s
    else run streams otherwise (s.ended 0)
  | .group apart body redirections, s =>
    if s.finished then s
    else
      let t := run (redirections.foldl (redirect s) streams) body s
      if apart && t.signal.isNone then { t with finished := s.finished, bindings := s.bindings }
      else t

/-- Run a script, given its name, its arguments and its variables. -/
def runScript (text name : String) (arguments : List String)
    (bindings : OrderedMap String String) : State :=
  let s : State := { name, arguments, bindings }
  match scan text with
  | none => s.complain {} "Syntax error: Unterminated quoted string" 2
  | some tokens =>
    match script tokens with
    | none => s.complain {} "Syntax error: end of file unexpected" 2
    | some c => run {} c s

end PackageAlgebra.Shell
