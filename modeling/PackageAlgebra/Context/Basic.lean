import PackageAlgebra.Context.Entries
import PackageAlgebra.Text.Uppercase

/-!
# Contexts

Under which settings a part of a query is evaluated.

A context function sets a key for its argument alone. Some keys are variables
of the environment, the others are build tags; the tag `test` asks for the test
packages, and any other tag is active when its value is one. A load sees the
context as a `LoadConfig`.

Loads may be cancelled from outside while they run. The configuration therefore
carries the answers to the question "am I cancelled?", one for each time the
load asks it.

## Main definitions

* `LoadConfig`: What a load is told.
* `Context`: The settings in force.
* `Context.assign`: Set a key.
* `Context.config`: The configuration of the loads in a context.
-/

namespace PackageAlgebra

/-- What a load is told. -/
structure LoadConfig where
  -- The variables of the environment.
  env : EntryList := []
  -- The active tags.
  tags : List String := []
  -- Whether test packages are wanted.
  tests : Bool := false
  -- Whether the load has been cancelled, each time that it asks.
  cancelled : Nat → Bool := fun _ => false

/-- The keys that are variables of the environment unless something else is
    said. -/
def defaultEnvKeys : List String :=
  ["CGO_ENABLED", "GOARCH", "GOENV", "GOFLAGS", "GOOS", "GOROOT", "PYTHONHOME", "PYTHONPATH",
    "VIRTUAL_ENV"]

/-- The settings in force. -/
structure Context where
  -- The variables of the environment.
  env : EntryList := []
  -- The build tags.
  tags : EntryList := []
  -- The keys that are variables of the environment, in upper case.
  envKeys : List String := defaultEnvKeys
  -- Whether loads have been cancelled, each time that one asks.
  cancelled : Nat → Bool := fun _ => false

namespace Context

/-- The tag that asks for test packages. -/
def testTag : String := "test"

/-- A context whose environment has the given keys. -/
def make (env tags : EntryList) (envKeys : List String) (cancelled : Nat → Bool) : Context :=
  ⟨env, tags, envKeys.map Text.upper, cancelled⟩

/-- Set a key: a variable of the environment, its name in upper case, or a
    tag. -/
def assign (ctx : Context) (key value : String) : Context :=
  if ctx.envKeys.contains (Text.upper key) then
    { ctx with env := ctx.env.write (Text.upper key) value }
  else { ctx with tags := ctx.tags.write key value }

/-- The tag that an entry activates, if any. -/
def activeTag (entry : String) : Option String :=
  let sides := splitEntry entry
  if Text.lower sides.1 ≠ testTag ∧ sides.2 = "1" then some sides.1 else none

/-- The configuration of the loads in a context. -/
def config (ctx : Context) : LoadConfig where
  env := ctx.env
  tags := ctx.tags.filterMap activeTag
  tests := ctx.tags.valueOf testTag = "1"
  cancelled := ctx.cancelled

end Context

end PackageAlgebra
