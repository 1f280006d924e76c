import PackageAlgebra.OrderedMap
import PackageAlgebra.Script.Statement
import PackageAlgebra.Text.Pieces

/-!
# Calls of a Module

Which function of a module calls which function.

A function, a method or the body of a module is a symbol: the name of the module, a
colon, and the name within. A call counts towards the outermost function around it.
What it calls is told from its form alone: a name that the module defines or imports
at its top level, or a member of such a name, or a method of the object itself.

Some functions look members or modules up by name while they run. Their callers are
dynamic, since what they lead to cannot be told.

## Main definitions

* `symbolOf`: The symbol of a name within a module.
* `callSites`: The calls of statements, each with the function around it.
* `Bindings`: What the names at the top level of a module stand for.
* `ModuleCalls`: The symbols of a module and its calls.
* `readCalls`: The symbols and calls of a module, read from its source.
-/

namespace PackageAlgebra.Script

/-- The symbol of a name within a module. -/
def symbolOf (module name : String) : String := module ++ ":" ++ name

/-- The name within a module that its body goes by. -/
def moduleBody : String := "<module>"

/-- The functions that look members or modules up by name. -/
def lookups : List String := ["getattr", "__import__", "import_module", "eval", "exec"]

/-- A call: the function around it, if there is one, and what is called. -/
structure CallSite where
  -- The outermost function around the call, none in the body of the module.
  scope : Option String
  -- What is called.
  called : Tree

/-- The outermost function around the body of a function, which may be a method of
    classes. -/
def enter (scope : Option String) (classes : List String) (name : String) : String :=
  scope.getD (Text.join "." (classes ++ [name]))

mutual

/-- The calls within a node, in the order of a visit. -/
def callSitesIn (scope : Option String) (classes : List String) : Tree → List CallSite
  | .name _ => []
  | .text _ => []
  | .member owner _ => callSitesIn scope classes owner
  | .call func args => ⟨scope, func⟩ :: callSitesIn scope classes func
    ++ callSites scope classes args
  | .compare first others => callSitesIn scope classes first ++ callSites scope classes others
  | .tuple items => callSites scope classes items
  | .list items => callSites scope classes items
  | .starred item => callSitesIn scope classes item
  | .subscript owner selectors =>
    callSitesIn scope classes owner ++ callSites scope classes selectors
  | .importModules _ => []
  | .importFrom _ _ _ => []
  | .function name signature body closing =>
    let inner := some (enter scope classes name)
    callSites inner [] signature ++ callSites inner [] body ++ callSites inner [] closing
  | .classDef name bases body decorators =>
    let inner := classes ++ [name]
    callSites scope inner bases ++ callSites scope inner body ++ callSites scope inner decorators
  | .branch test body otherwise =>
    callSitesIn scope classes test ++ callSites scope classes body
      ++ callSites scope classes otherwise
  | .form parts => callSites scope classes parts

/-- The calls of statements, in the order of a visit. -/
def callSites (scope : Option String) (classes : List String) : List Tree → List CallSite
  | [] => []
  | t :: rest => callSitesIn scope classes t ++ callSites scope classes rest

end

/-- What an imported name stands for. -/
inductive Binding
  -- A module.
  | module (name : String)
  -- Something in a module.
  | attribute (module name : String)

/-- What a statement at the top level binds by importing. A module without a new
    name binds the first part of its name. -/
def importBindings : Tree → List (String × Binding)
  | .importModules names => names.map fun n =>
    match n.rename with
    | some new => (new, .module n.name)
    | none =>
      let top := Text.beforeFirst '.' n.name
      (top, .module top)
  | .importFrom level source names =>
    if level = 0 ∧ source ≠ "" then
      (names.filter fun n => n.name ≠ "*").map fun n =>
        (n.rename.getD n.name, .attribute source n.name)
    else []
  | _ => []

/-- What the names at the top level of a module stand for. -/
structure Bindings where
  -- The functions and classes that it defines.
  defined : List String
  -- The names that it imports.
  imported : OrderedMap String Binding

/-- The name that a statement defines. -/
def definedName? : Tree → Option String
  | .function name _ _ _ => some name
  | .classDef name _ _ _ => some name
  | _ => none

/-- What the names at the top level of statements stand for. -/
def bindings (statements : List Tree) : Bindings :=
  ⟨statements.filterMap definedName?, .ofList (statements.flatMap importBindings)⟩

/-- The symbol of a call by name. -/
def namedCallee (module : String) (b : Bindings) (id : String) : Option String :=
  if b.defined.contains id then some (symbolOf module id)
  else
    match b.imported.get? id with
    | some (.attribute source name) => some (symbolOf source name)
    | _ => none

/-- The classes that the method around a call belongs to, if the call names a method
    of the object or the class itself. -/
def ownClass? (scope : Option String) (id : String) : Option String :=
  if id = "self" ∨ id = "cls" then scope.bind (Text.beforeLast? '.') else none

/-- The symbol of a call of a member of a name. -/
def memberCallee (module : String) (b : Bindings) (scope : Option String) (id name : String) :
    Option String :=
  match ownClass? scope id with
  | some owner => some (symbolOf module (owner ++ "." ++ name))
  | none =>
    if b.defined.contains id then some (symbolOf module (id ++ "." ++ name))
    else
      (b.imported.get? id).map fun
        | .module source => symbolOf source name
        | .attribute source attr => symbolOf (source ++ "." ++ attr) name

/-- The symbol that is called, if its form tells. -/
def callee? (module : String) (b : Bindings) (site : CallSite) : Option String :=
  match site.called with
  | .name id => namedCallee module b id
  | .member (.name id) name => memberCallee module b site.scope id name
  | _ => none

/-- The last part of the name of what is called. -/
def calledName? : Tree → Option String
  | .name id => some id
  | .member _ name => some name
  | _ => none

/-- The symbol that a call counts towards. -/
def caller (module : String) (site : CallSite) : String :=
  symbolOf module (site.scope.getD moduleBody)

/-- The names within a module that a statement at its top level gives symbols. -/
def symbolNames : Tree → List String
  | .function name _ _ _ => [name]
  | .classDef name _ body _ => body.filterMap fun
    | .function method _ _ _ => some (name ++ "." ++ method)
    | _ => none
  | _ => []

/-- A symbol of a module. -/
structure CallNode where
  -- The module.
  module : String
  -- Whether it looks members or modules up by name.
  dynamic : Bool
  deriving DecidableEq

/-- The symbols of a module and its calls. -/
structure ModuleCalls where
  -- The symbols.
  nodes : OrderedMap String CallNode
  -- The calls, each as its caller and what is called.
  calls : List (String × String)

/-- The symbols and calls of a module, given its statements. -/
def moduleCalls (module : String) (statements : List Tree) : ModuleCalls :=
  let sites := callSites none [] statements
  let b := bindings statements
  let dynamic := (sites.filter fun site =>
    (calledName? site.called).any lookups.contains).map (caller module)
  let names := moduleBody :: statements.flatMap symbolNames
  ⟨.ofList (names.map fun n =>
      let symbol := symbolOf module n
      (symbol, ⟨module, dynamic.contains symbol⟩)),
    sites.filterMap fun site => (callee? module b site).map fun c => (caller module site, c)⟩

/-- The symbols and calls of a module, read from its source. -/
def readCalls (module source : String) : Except SourceError ModuleCalls :=
  (parseModule source).map (moduleCalls module)

end PackageAlgebra.Script
