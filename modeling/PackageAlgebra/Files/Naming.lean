import PackageAlgebra.Files.Path
import PackageAlgebra.Text.Lowercase

/-!
# Names of Files

In which language a file is written, and what its module is called.

A module is named by the path of its file below the root of the source tree, with
points between the names. The file that stands for a package is not named, so the
package bears the name of its directory. A dash in a path is an underscore in a
name.

## Main definitions

* `Language`: The language of a file, told from its extension.
* `moduleName`, `directoryName`: The names of a file and of a directory, given their
  path below the root.
* `packageName`: The package that a module is in.
-/

namespace PackageAlgebra

/-- The language of a file. -/
inductive Language
  -- Modules.
  | python
  -- The types of modules.
  | stub
  -- Modules to be compiled.
  | cython
  -- Another language.
  | other (label : String)
  -- No language that is known.
  | unknown
  deriving DecidableEq

namespace Language

/-- What a language is called. -/
def label : Language → String
  | python => "python"
  | stub => "python-stub"
  | cython => "cython"
  | other label => label
  | unknown => "unknown"

/-- The languages of extensions in lower case. -/
def ofExtension (ext : String) : Language :=
  match ext with
  | ".py" => python
  | ".pyi" => stub
  | ".pyx" => cython
  | ".c" => other "c"
  | ".h" => other "c"
  | ".cpp" => other "cpp"
  | ".rs" => other "rust"
  | ".js" => other "javascript"
  | ".ts" => other "typescript"
  | _ => unknown

/-- The language of a file, told from its extension in whatever case. -/
def ofPath (path : String) : Language :=
  ofExtension (Text.lower (Path.splitExtension path).2)

end Language

/-- The name of the file that stands for a package, without its extension. -/
def packageStem : String := "__init__"

/-- A character of a path as it stands in a name. -/
def nameChar (c : Char) : Char := if c = '-' then '_' else c

/-- The name that a path without an extension gives. -/
def dotted (path : String) : String :=
  let names := (Text.split '/' path).filter (· ≠ packageStem)
  String.ofList ((Text.join "." names).toList.map nameChar)

/-- The name of the module in a file, given its path below the root. -/
def moduleName (path : String) : String := dotted (Path.splitExtension path).1

/-- The name of a directory, given its path below the root; the root has none. -/
def directoryName (path : String) : String := if path = "." then "" else dotted path

/-- The package that a module is in, empty if it is in none. -/
def packageName (module : String) : String := (Text.beforeLast? '.' module).getD ""

/-- The name of the module in a file, given the root and the path of the file as
    seen from a directory. The empty path is no file. -/
def moduleName? (dir root path : String) : Option String :=
  (Path.relative? dir root path).map moduleName

/-- The name of a directory, given the root and the path of the directory as seen
    from another. -/
def directoryName? (dir root path : String) : Option String :=
  (Path.relative? dir root path).map directoryName

end PackageAlgebra
