import PackageAlgebra.Script.Calls
import PackageAlgebra.Symbol.Graph

/-!
# Call Graphs

The calls of the modules of several packages, put together.

The symbols of all modules come first, a later module of the same name replacing the
symbols that it shares with an earlier one. A call counts only if both its sides are
symbols of some module.

## Main definitions

* `CallGraph`: The symbols and calls of modules.
* `CallGraph.ofModules`: The modules put together.
* `CallGraph.toSymbolGraph`: The graph of callers; the dynamic symbols are annotated.
-/

namespace PackageAlgebra

open Script (CallNode ModuleCalls)

/-- The symbols and calls of modules. -/
structure CallGraph where
  -- The symbols.
  nodes : OrderedMap String CallNode
  -- The calls between them, each as its caller and what is called.
  edges : List (String × String)

namespace CallGraph

/-- The modules put together. -/
def ofModules (modules : List ModuleCalls) : CallGraph :=
  let nodes := OrderedMap.ofList (modules.flatMap fun m => m.nodes.entries)
  ⟨nodes, (modules.flatMap ModuleCalls.calls).filter fun (caller, callee) =>
    nodes.contains caller && nodes.contains callee⟩

/-- The module that a symbol names. -/
def moduleOfSymbol (symbol : String) : String := Text.beforeFirst ':' symbol

/-- The module that a symbol belongs to, or that it names if it is unknown. -/
def packageOf (g : CallGraph) (symbol : String) : String :=
  match g.nodes.get? symbol with
  | some node => node.module
  | none => moduleOfSymbol symbol

/-- The graph of callers; the dynamic symbols are annotated. -/
def toSymbolGraph (g : CallGraph) : SymbolGraph where
  callers := g.edges.foldl (fun callers (caller, callee) =>
    SymbolGraph.fileCall callers caller callee) .empty
  annotated := (g.nodes.filter fun _ node => node.dynamic).keys
  packageOf := g.packageOf

end CallGraph

end PackageAlgebra
