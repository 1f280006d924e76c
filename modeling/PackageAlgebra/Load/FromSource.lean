import PackageAlgebra.Load.Loader
import PackageAlgebra.Load.SourceScan

/-!
# Loading from a Source Tree

Packages from the modules below a directory.

The tree is scanned when the first universe is asked for, and scanned once. A scan
asks before every module whether the load has been cancelled; one that has been leaves
nothing behind. Which universe a configuration has depends only on whether tests are
wanted and on whether imports for type checking count.

Wildcards stand for packages with files.

## Main definitions

* `SourceState`: What has been found out about a source tree.
* `sourceLoader`: The loader of a source tree.
-/

namespace PackageAlgebra

/-- What has been found out about a source tree. -/
structure SourceState where
  -- The scan, if there has been one.
  scan : Option SourceScan := none
  -- The universes that have been built.
  universes : UniverseTable := .empty

/-- What the universe of a configuration depends on in a source tree. -/
def LoadConfig.sourceVariant (config : LoadConfig) : Variant :=
  ⟨config.tests, if config.activeTags.contains typingTag then [typingTag] else []⟩

/-- A source tree: its root and what lies around it. -/
structure SourceTree where
  -- The files.
  files : FileSystem
  -- The path of the root, seen from the working directory.
  root : String
  -- The names of the standard library.
  stdNames : List String

namespace SourceTree

/-- The path of the root. -/
def rootPath (t : SourceTree) : String := t.files.absolute t.root

/-- The modules of the tree; none if the root is no directory. -/
def scan? (t : SourceTree) : Option SourceScan :=
  match t.files.find t.rootPath with
  | .ok (.directory entries) =>
    some (.ofFiles (SourceFile.scan t.rootPath (.directory entries)))
  | _ => none

/-- Whether a load is cancelled during a scan; `asked` tells how often it has asked
    before. -/
def interrupts (config : LoadConfig) (asked : Nat) (scan : SourceScan) : Bool :=
  (List.range scan.modules.size).any fun i => config.cancelled (asked + i)

/-- The scan of the tree, made unless it has been made before. -/
def require (t : SourceTree) (config : LoadConfig) (asked : Nat) (s : SourceState) :
    Except LoadError SourceScan × SourceState :=
  match s.scan with
  | some scan => (.ok scan, s)
  | none =>
    match t.scan? with
    | none => (.error (.invalidRoot t.rootPath), s)
    | some scan =>
      if interrupts config asked scan then (.error (.cancelled [t.rootPath]), s)
      else (.ok scan, { s with scan := some scan })

/-- The universe of a configuration. -/
def universe? (t : SourceTree) (config : LoadConfig) (asked : Nat) (s : SourceState) :
    Except LoadError Universe × SourceState :=
  match s.universes.get? config.sourceVariant with
  | some nodes => (.ok nodes, s)
  | none =>
    match t.require config asked s with
    | (.error e, s) => (.error e, s)
    | (.ok scan, s) =>
      let (nodes, universes) := s.universes.require config.sourceVariant (.ofScan t.stdNames scan)
      (.ok nodes, { s with universes := universes })

end SourceTree

/-- The loader of a source tree. -/
def sourceLoader (t : SourceTree) : Loader SourceState NodeRef where
  defaultPattern := everything
  catalog s := s.universes.catalog
  load config patterns s :=
    if config.cancelled 0 then (.error (.cancelled patterns), s)
    else
      match t.universe? config 1 s with
      | (.error e, s) => (.error e, s)
      | (.ok nodes, s) => (resolveIn nodes (fun p => !p.files.isEmpty) config patterns, s)
  allNodes config s := t.universe? config 0 s

end PackageAlgebra
