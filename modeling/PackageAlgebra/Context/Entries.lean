import PackageAlgebra.Text.Lowercase
import PackageAlgebra.Text.Pieces

/-!
# Entries

Lists of entries of the form `KEY=VALUE`, as environments and build tags are
kept.

The list remembers the order in which keys were first set. A key is looked up
by the head of an entry, ignoring case; an entry that is read back falls apart
at its last equals sign. The two rules agree on every key without an equals
sign.

## Main definitions

* `splitEntry`: The two sides of an entry.
* `EntryList`: Entries in order.
* `EntryList.indexOf?`: Where a key is set.
* `EntryList.write`: Set a key, in place or at the end.
* `EntryList.valueOf`: The value of a key.
-/

namespace PackageAlgebra

/-- The two sides of an entry, split at its last equals sign. Without one the
    whole entry is the key. -/
def splitEntry (entry : String) : String × String :=
  match Text.cutLast '=' entry.toList with
  | some (key, value) => (String.ofList key, String.ofList value)
  | none => (entry, "")

/-- Entries in the order in which their keys were first set. -/
abbrev EntryList := List String

namespace EntryList

/-- Whether an entry sets a key, ignoring case. -/
def sets (key entry : String) : Bool :=
  Text.beginsWith (Text.lower key ++ "=") (Text.lower entry)

/-- The place of the first entry that sets a key. -/
def indexOf? (l : EntryList) (key : String) : Option Nat := l.findIdx? (sets key)

/-- Set a key: in place of the first entry that sets it, at the end if there is
    none. -/
def write (l : EntryList) (key value : String) : EntryList :=
  match l.indexOf? key with
  | some i => l.set i (key ++ "=" ++ value)
  | none => l ++ [key ++ "=" ++ value]

/-- The value of a key, empty if no entry sets it. -/
def valueOf (l : EntryList) (key : String) : String :=
  match l.find? (sets key) with
  | some entry => (splitEntry entry).2
  | none => ""

end EntryList

end PackageAlgebra
