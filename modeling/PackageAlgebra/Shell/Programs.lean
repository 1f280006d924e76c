import PackageAlgebra.Shell.Run
import PackageAlgebra.Symbol.CommandOracle

/-!
# Programs beside a Shell

A choice of programs: a shell, and two that do nothing.

The shell runs the script that it is given as an argument. It opens no files.

## Main definitions

* `Shell.runShell`: What the shell does with its arguments.
* `Shell.programs`: The three programs, under their names or their paths.
-/

namespace PackageAlgebra.Shell

/-- What the shell does with its arguments. -/
def runShell (args : List String) (bindings : OrderedMap String String) : Outcome :=
  match args with
  | [] => ⟨0, ""⟩
  | "-c" :: [] => ⟨2, "sh: 0: -c requires an argument\n"⟩
  | "-c" :: text :: rest =>
    let s := runScript text (rest.head?.getD "sh") rest.tail bindings
    ⟨(s.signal.map fun n => -(n : Int)).getD s.status, s.errors⟩
  | path :: _ => ⟨2, "sh: 0: cannot open " ++ path ++ ": No such file\n"⟩

/-- The shell and the two programs that do nothing, under their names or their paths. -/
instance programs : Programs where
  run? name args bindings :=
    match (["/bin/", "/usr/bin/"].find? fun dir => Text.beginsWith dir name).elim name
        fun dir => String.ofList (name.toList.drop dir.length) with
    | "true" => some ⟨0, ""⟩
    | "false" => some ⟨1, ""⟩
    | "sh" => some (runShell args bindings)
    | _ => none

end PackageAlgebra.Shell
