import PackageAlgebra.Package.Walk

/-!
# Symbol Graphs

Which functions call which, and which of them keep unused methods alive.

A symbol is the name of a function in a linked program or in a source tree. The
graph is kept backwards, from the called symbol to its callers in the order in
which the calls were found. Some symbols are annotated: they look methods up at
run time, so nothing that leads to them may be pruned.

## Main definitions

* `SymbolGraph`: Callers, annotated symbols, and the package of each symbol.
* `SymbolGraph.addCall`: Add a call.
* `SymbolGraph.reachable`: The symbols from which calls lead to an annotated one.
-/

namespace PackageAlgebra

/-- Which functions call which. -/
structure SymbolGraph where
  -- The callers of each symbol, in the order in which they were found.
  callers : OrderedMap String (List String)
  -- The annotated symbols, each once.
  annotated : List String
  -- The package that a symbol belongs to, empty if there is none.
  packageOf : String → String

namespace SymbolGraph

/-- File a call under the called symbol. -/
def fileCall (callers : OrderedMap String (List String)) (caller callee : String) :
    OrderedMap String (List String) :=
  callers.insert callee ((callers.get? callee).getD [] ++ [caller])

/-- Add a call. -/
def addCall (g : SymbolGraph) (caller callee : String) : SymbolGraph :=
  { g with callers := fileCall g.callers caller callee }

/-- The callers of a symbol. -/
def callersOf (g : SymbolGraph) (symbol : String) : List String :=
  (g.callers.get? symbol).getD []

/-- The symbols from which calls lead to an annotated one, those included. -/
def reachable (g : SymbolGraph) : List String :=
  walk (fun s => s) g.callersOf (g.annotated ++ g.callers.values.flatten) g.annotated

end SymbolGraph

end PackageAlgebra
