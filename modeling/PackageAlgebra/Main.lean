import PackageAlgebra.CommandLine.Run

/-!
# The Program

The command line as a program: it reads the files that a command line may name, carries
the command line out, and prints how it ended.

What is read is the working directory with everything below it, and the paths that the
words and the settings name.

## Main definitions

* `main`: The program.
-/

namespace PackageAlgebra.Main

/-- The settings that are variables of the environment. -/
def settingNames : List String :=
  ["LOG_LEVEL", "ROOT", "SNAPSHOT", "PRINT_STD", "PREFETCH_STD", "ENV_KEYS", "LIST_FORMAT",
    "CUT_FORMAT", "DEADCODE_COMMAND"]

/-- The variables of the environment that are settings. -/
def readEnvironment : IO (List (String × String)) := do
  let bindings ← settingNames.mapM fun name => do
    let name := "DEPCALC_" ++ name
    return (← IO.getEnv name).map fun value => (name, value)
  return bindings.filterMap id

/-- A file or a directory as it is on the disk, nothing if it cannot be read. -/
partial def readTree (path : String) : IO (Option FileTree) := do
  try
    let p ← IO.FS.realPath path
    if ← p.isDir then
      let entries ← (← p.readDir).toList.mapM fun e => do
        return (← readTree e.path.toString).map fun t => (e.fileName, t)
      return some (.directory (entries.filterMap id))
    else
      let content ← IO.FS.readBinFile p
      return some (.file content.toList)
  catch _ => return none

/-- The paths that a command line or the settings may name. -/
def namedPaths (settings : Settings) (words : List String) : List String :=
  let source (o : CommandLine.SourceOptions) : List String :=
    match o.snapshot <|> settings.snapshot with
    | some path => if path = "" then [o.root.getD settings.root] else [path]
    | none => [o.root.getD settings.root]
  match CommandLine.Invocation.read settings words with
  | .ok (.list o) => source o
  | .ok (.cut o _ _) => source o
  | _ => []

/-- The files at paths. -/
def readFiles (paths : List String) : IO FileSystem := do
  let directory := (← IO.currentDir).toString
  let root ← paths.foldlM (fun whole path => do
    let path := Path.absolute directory path
    match ← readTree path with
    | some t => return t.graft (Path.parts path) whole
    | none => return whole) ((FileTree.directory []).graft (Path.parts directory) (.directory []))
  return ⟨root, directory⟩

/-- Print how a command line ended, and tell the status of the program. -/
def finish : CommandLine.Ending → IO UInt32
  | .printed lines => do
    lines.forM IO.println
    return 0
  | .failed complaint => do
    IO.eprintln complaint
    return 1
  | .stopped .help => return 0
  | .stopped .refused => return 2
  | .broken (.template e) => do
    IO.eprintln e.message
    return 1
  | .broken (.fault f) => do
    IO.eprintln f.message
    return 1

end PackageAlgebra.Main

open PackageAlgebra in
/-- The program. -/
def main (words : List String) : IO UInt32 := do
  match Settings.ofEnvironment (← Main.readEnvironment) with
  | .error e =>
    IO.eprintln e.message
    return 1
  | .ok settings =>
    let files ← Main.readFiles (Main.namedPaths settings words)
    Main.finish (CommandLine.runCommandLine settings files words)
