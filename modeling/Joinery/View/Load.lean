import Joinery.Record
import Joinery.View.Basic

/-!
# Loading related records

From a row of a view the record behind one of its relations is seeded with the values
that identify it: what the reference's equalities carry across, or the shared columns
of a natural join, and then the target's primary key. The first seed for a field counts.

A seed names the columns its value may be read from. The value is read from the first of
them that the view shows and the row has; a seed without a value is an error, so a record
is never partly seeded.

`View.load` is the view's `relation`, and `outputOf?` its `output_for`.
-/

namespace Joinery

/-- A field of a record to be, and the columns its value may be read from. -/
structure Seed where
  field : String
  sources : List PinnedColumn
  deriving DecidableEq, Repr

/-- The seed that a restriction gives the record of a node: equality carries over the column at
the other end. -/
def PinnedRestriction.seed? (r : PinnedRestriction) (target : Nat) : Option Seed :=
  if r.comparison ≠ .equals then none
  else if r.localSide.node = target then some ⟨r.localSide.column, [r.remoteSide]⟩
  else if r.remoteSide.node = target then some ⟨r.remoteSide.column, [r.localSide]⟩
  else none

namespace View

/-- What following a reference asks of the related record. -/
def referenceSeeds (v : View) : Accessor → List Seed
  | .restricted reference target =>
    match v.graph.link? reference with
    | some l => l.reference.pinned.filterMap (·.seed? target)
    | none => []
  | .natural reference target shared =>
    match v.graph.link? reference with
    | some l => shared.map fun column => ⟨column, [⟨l.parent, column⟩, ⟨target, column⟩]⟩
    | none => []

/-- The primary key of the related entity, to be read off the row as it stands there. -/
def keySeeds (target : Nat) (entity : Entity) : List Seed :=
  entity.primaryKey.map fun column => ⟨column, [⟨target, column⟩]⟩

/-- The name under which the view shows a column, if it does. -/
def outputOf? (v : View) (c : PinnedColumn) : Option String :=
  (v.columns.values.find? fun p => p.node == c.node && p.column == c.column).map (·.output)

/-- The value of a seed: that of the first of its columns which the view shows and the row has. -/
def valueOf? (v : View) (row : Record) (seed : Seed) : Option Value :=
  seed.sources.findSome? fun c => (v.outputOf? c).bind row.get?

/-- The fields that a row gives a list of seeds, after those that are there. -/
def fieldsFrom (v : View) (relation : String) (row : Record) (fields : List (String × Value)) :
    List Seed → Except ViewError (List (String × Value))
  | [] => .ok fields
  | seed :: rest =>
    if fields.any (·.1 == seed.field) then fieldsFrom v relation row fields rest
    else
      match v.valueOf? row seed with
      | some value => fieldsFrom v relation row (fields ++ [(seed.field, value)]) rest
      | none => .error (.missingValue relation seed.field)

/-- The record behind a relation, from one row of the view. It belongs to the row's database. -/
def load (v : View) (relation : String) (row : Record) : Except ViewError Record :=
  let unknown := .error (.unknownRelation v.name relation)
  match v.relations.get? relation with
  | none => unknown
  | some accessor =>
    match v.graph.node? accessor.target with
    | none => unknown
    | some n => do
      let seeds := v.referenceSeeds accessor ++ keySeeds accessor.target n.entity
      let fields ← v.fieldsFrom relation row [] seeds
      return Record.ofFields n.entity fields row.database

end View

end Joinery
