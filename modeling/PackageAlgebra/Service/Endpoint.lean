import PackageAlgebra.CommandLine.Run
import PackageAlgebra.Request
import PackageAlgebra.Shell.Programs

/-!
# Endpoints

Requests as documents, and the documents that answer them.

A request is checked before anything else. An error of a calculation is a bad request; so
is a root that is no directory, which is looked at only if no snapshot is named. The
programs outside are those of `Shell.programs`, as for a command line.

## Main definitions

* `SourceRequest`: What is asked about packages.
* `Answer`: What a request is answered with.
* `Endpoint.respond`: The answer to a request.
-/

namespace PackageAlgebra

/-- What is asked about packages. -/
structure SourceRequest where
  -- The query.
  query : String := ""
  -- The root of the source tree, if one is given.
  root : Option String := none
  -- The path of the snapshot, if one is given.
  snapshot : Option String := none
  -- Whether packages of the standard library are wanted.
  withStd : Bool := false
  -- The query for the packages without a row, empty if there is none.
  exclude : String := ""
  deriving DecidableEq

/-- What a request is answered with. -/
inductive Answer
  -- A document.
  | document (d : Document)
  -- The request is a bad one.
  | badRequest (message : String)
  -- The request does not have the right shape.
  | invalid (problems : List Problem)
  -- The request is broken off.
  | broken (why : Breakage)

/-- The answer after a calculation, or a failure of it. -/
def Answer.after {α : Type} (outcome : Except Failure α) (answer : α → Document) : Answer :=
  match outcome with
  | .ok a => document (answer a)
  | .error (.error e) => badRequest e.message
  | .error (.fault f) => broken (.fault f)

/-- The answer to a request of the right shape. -/
def Answer.checked {α : Type} (request : Checked α) (answer : α → Answer) : Answer :=
  match request.run with
  | .ok a => answer a
  | .error problems => invalid problems

/-- Check for a request about packages; `cuts` tells that it is about cuts, which may
    leave rows out. -/
def SourceRequest.ofDocument (cuts : Bool) : Document → Checked SourceRequest :=
  Document.asObject {} fun fields => do
    let query ← Document.optional fields "expr" "" Document.asText
    let root ← Document.optional fields "root_path" none Document.asOptionalText
    let snapshot ← Document.optional fields "snapshot" none Document.asOptionalText
    let withStd ← Document.optional fields "std" false Document.asBool
    let exclude ← if cuts then Document.optional fields "exclude" "" Document.asText
      else .sound ""
    return { query, root, snapshot, withStd, exclude }

/-- Check for a request to print a query. -/
def queryOfDocument : Document → Checked String :=
  Document.asObject "" fun fields => Document.required fields "expr" "" Document.asText

namespace SourceRequest

/-- Answer a request with a calculator for it. A root counts only without a snapshot, and
    with a root the empty snapshot is no snapshot. -/
def answer {α : Type} (r : SourceRequest) (settings : Settings) (files : FileSystem)
    (calculate : {σ : Type} → Calculator σ NodeRef → Calc σ NodeRef α) (print : α → Document) :
    Answer :=
  let answerFrom (root snapshot : Option String) : Answer :=
    .after (askFor settings files root snapshot calculate) print
  match r.root with
  | none => answerFrom none r.snapshot
  | some path =>
    if (r.snapshot.getD "") ≠ "" then answerFrom none r.snapshot
    else
      let root := files.absolute path
      if files.isDirectory root then answerFrom (some root) none
      else .badRequest ("Invalid root_path: " ++ root)

end SourceRequest

/-- What may be asked for. -/
inductive Endpoint
  -- Whether the service is there.
  | health
  -- The packages of a set.
  | packages
  -- What cuts would remove.
  | cuts
  -- The printed form of a query.
  | parse
  deriving DecidableEq

namespace Endpoint

/-- The endpoint at a path. -/
def ofPath? : String → Option Endpoint
  | "/health" => some health
  | "/calc" => some packages
  | "/cut" => some cuts
  | "/parse" => some parse
  | _ => none

/-- The answer to a query that is to be printed. -/
def printQuery (query : String) : Answer :=
  match (QueryText.line query).parse with
  | .error e => .badRequest e.message
  | .ok none => .badRequest EvalError.emptyExpression.message
  | .ok (some e) => .document (.object [("expr", .text e.print), ("tree", .text e.outline)])

/-- The answer to a request. -/
def respond (settings : Settings) (files : FileSystem) (body : Document) : Endpoint → Answer
  | health => .document (.object [("status", .text "ok")])
  | packages =>
    .checked (SourceRequest.ofDocument false body) fun r =>
      r.answer settings files (fun parties => selectPackages (.line r.query) r.withStd parties)
        fun selection =>
          packagesDocument r.query (packageInfos selection.catalog selection.packages)
  | cuts =>
    .checked (SourceRequest.ofDocument true body) fun r =>
      let excluded := if r.exclude = "" then none else some (QueryText.line r.exclude)
      r.answer settings files
        (fun parties => analyseCuts (.line r.query) excluded r.withStd parties)
        (cutDocument r.query)
  | parse => .checked (queryOfDocument body) printQuery

end Endpoint

end PackageAlgebra
