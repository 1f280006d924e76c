import PackageAlgebra.Load.Loader
import PackageAlgebra.Package.Record

/-!
# Loading from Records

Packages from a list that has been written down once and for all.

The universe of a variant holds the records that exist under it. Of two records
with one id the last gives the fields and the first the place; their imports
come together. An import of an id that is not in the universe is dropped.
Wildcards do not stand for packages of the standard library.

## Main definitions

* `PackageRecord.existsIn`: Whether a record exists under a variant.
* `Universe.ofRecords`: The universe of a variant.
* `recordLoader`: The loader of a list of records.
-/

namespace PackageAlgebra

/-- Whether a record exists under a variant. -/
def PackageRecord.existsIn (v : Variant) (r : PackageRecord) : Bool :=
  (v.tests || !r.isTest) && r.tags.all fun t => v.tags.contains (Text.lower t)

namespace Universe

/-- The imports of an id among records that exist, without those that do not
    exist. -/
def importsOf (v : Variant) (existing : List PackageRecord) (id : String) :
    OrderedMap String NodeRef :=
  let ids := existing.map PackageRecord.id
  let named := (existing.filter (·.id = id)).flatMap PackageRecord.imports
  .ofList ((named.filter ids.contains).map fun target => (target, ⟨v, target⟩))

/-- The universe of a variant: the records that exist under it, importing each
    other. -/
def ofRecords (records : List PackageRecord) (v : Variant) : Universe :=
  let existing := records.filter (PackageRecord.existsIn v)
  let nodes : Universe := .ofList (existing.map fun r => (r.id, r.bareNode))
  nodes.mapValues fun id p => { p with imports := importsOf v existing id }

end Universe

/-- The loader of a list of records. -/
def recordLoader (records : List PackageRecord) : Loader UniverseTable NodeRef where
  defaultPattern := everything
  catalog := UniverseTable.catalog
  load config patterns t :=
    if config.cancelled 0 then (.error (.cancelled patterns), t)
    else
      let (nodes, t) := t.require config.variant (Universe.ofRecords records)
      (resolveIn nodes (fun p => !p.std) config patterns, t)
  allNodes config t :=
    let (nodes, t) := t.require config.variant (Universe.ofRecords records)
    (.ok nodes, t)

end PackageAlgebra
