import PackageAlgebra.Symbol.Graph
import PackageAlgebra.Text.Blank
import PackageAlgebra.Text.Pieces

/-!
# Dependency Dumps

The text in which a linker tells which symbol needs which.

Each line names a source and a target with an arrow between them; lines without
an arrow say nothing. Either side may carry annotations in angle brackets after
a blank. A side that carries the annotation which is looked for makes its symbol
an annotated one.

## Main definitions

* `reflectMethod`: The annotation that is looked for by default.
* `linkerPackage`: The package path of a linker symbol.
* `Dump.read`: The symbol graph of the lines of a dump.
-/

namespace PackageAlgebra

/-- The package path of a linker symbol: what precedes the first point after
    the last slash, empty if there is no such point. -/
def linkerPackage (symbol : String) : String :=
  let symbol := Text.trim symbol
  let path := (Text.cutLast '/' symbol.toList).map fun sides => sides.1 ++ ['/']
  match Text.cutFirst '.' (Text.afterLast '/' symbol).toList with
  | some (name, _) => String.ofList (path.getD [] ++ name)
  | none => ""

namespace Dump

/-- The annotation that is looked for by default. -/
def reflectMethod : String := "<ReflectMethod>"

/-- A side of a line without its annotations. -/
def bareSymbol (side : String) : String :=
  match Text.cutText " <".toList side.toList with
  | some (symbol, _) => String.ofList symbol
  | none => side

/-- The trimmed sides of a line, if it has an arrow. -/
def sides? (line : String) : Option (String × String) :=
  (Text.cutText " -> ".toList line.toList).map fun (source, target) =>
    (Text.trim (String.ofList source), Text.trim (String.ofList target))

/-- Count the symbol of a side as annotated if it carries the annotation. -/
def markSide (marker side : String) (annotated : List String) : List String :=
  let symbol := bareSymbol side
  if Text.occursIn (" " ++ marker) side && !annotated.contains symbol then
    annotated ++ [symbol]
  else annotated

/-- Add a line to a graph. -/
def readLine (marker : String) (g : SymbolGraph) (line : String) : SymbolGraph :=
  match sides? line with
  | none => g
  | some (source, target) =>
    { g.addCall (bareSymbol source) (bareSymbol target) with
      annotated := markSide marker source (markSide marker target g.annotated) }

/-- The symbol graph of the lines of a dump. -/
def read (lines : List String) (marker : String) : SymbolGraph :=
  lines.foldl (readLine marker) ⟨.empty, [], linkerPackage⟩

end Dump

end PackageAlgebra
