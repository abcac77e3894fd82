import Joinery.Text.Blank

/-!
# Entities

An entity is a table or view as the rest of the library sees it: its name, its columns
in order, the columns of its primary key, and what is known about a column. `ofTable`
and its `with…` steps declare a base table; a view answers as an entity too.

`Entity.defect?` finds what keeps an entity from being joined, if anything does.

`defect?` is the check `validate_entity`, and the declaring steps are those of a table
entity.
-/

namespace Joinery

/-- What kind of value a column holds, whatever the backend calls it. -/
inductive PseudoType
  | integer
  | float
  | text
  | boolean
  | date
  | timestamp
  | binary
  deriving DecidableEq, Repr

namespace PseudoType

/-- All types, in the order in which they are declared. -/
def all : List PseudoType :=
  [integer, float, text, boolean, date, timestamp, binary]

/-- The name by which a type goes in texts. -/
def name : PseudoType → String
  | integer => "integer"
  | float => "float"
  | text => "text"
  | boolean => "boolean"
  | date => "date"
  | timestamp => "timestamp"
  | binary => "binary"

/-- The type with a name, read exactly as `name` writes it. -/
def ofName? (text : String) : Option PseudoType :=
  all.find? (·.name == text)

end PseudoType

/-- The column a foreign key points at, with the table name of the entity behind it when that
entity is known. -/
structure ForeignKey where
  table : String
  column : String
  target : Option String
  deriving DecidableEq, Repr

/-- A table or view: its name, its columns and what is known of them. -/
structure Entity where
  table : String
  columns : List String
  primaryKey : List String
  -- the pseudo-types of the columns; of several for one column the first counts
  types : List (String × PseudoType)
  -- the foreign keys of the columns; of several for one column the first counts
  foreignKeys : List (String × ForeignKey)
  deriving DecidableEq, Repr, Inhabited

/-- What keeps an entity from being joined. -/
inductive Defect
  | blankTable
  | noColumns
  | keyOutsideColumns (column : String)
  | blankViewName
  deriving DecidableEq, Repr

namespace Entity

/-- Whether the table has a column of this name. -/
def hasColumn (e : Entity) (column : String) : Bool :=
  e.columns.contains column

def pseudoType? (e : Entity) (column : String) : Option PseudoType :=
  e.types.lookup column

/-- Where a column points to, for a foreign key. -/
def foreignKey? (e : Entity) (column : String) : Option ForeignKey :=
  e.foreignKeys.lookup column

/-- The first reason for which the entity cannot be joined: a blank name, no columns, or a key
column that it does not have. -/
def defect? (e : Entity) : Option Defect :=
  if Text.allBlank e.table then some .blankTable
  else if e.columns.isEmpty then some .noColumns
  else (e.primaryKey.find? fun key => !e.hasColumn key).map .keyOutsideColumns

theorem hasColumn_iff {e : Entity} {column : String} :
    e.hasColumn column = true ↔ column ∈ e.columns := by
  rw [hasColumn, List.contains_iff_mem]

/-- An entity without a defect has a column, and has every column of its primary key. -/
theorem of_defect?_eq_none {e : Entity} (h : e.defect? = none) :
    e.columns ≠ [] ∧ ∀ key ∈ e.primaryKey, e.hasColumn key = true := by
  unfold defect? at h
  split at h
  next => exact absurd h (by simp)
  next =>
    split at h
    next => exact absurd h (by simp)
    next hcols =>
      refine ⟨fun he => hcols (by rw [he]; rfl), ?_⟩
      intro key hkey
      rw [Option.map_eq_none_iff, List.find?_eq_none] at h
      have hno := h key hkey
      rw [Bool.not_eq_true, Bool.not_eq_false'] at hno
      exact hno

/-! ## Declaring a table -/

/-- An entity with a table and nothing else yet. -/
def ofTable (table : String) : Entity :=
  { table, columns := [], primaryKey := [], types := [], foreignKeys := [] }

/-- The table with one more column. A column declared again keeps its place and takes the new
type. -/
def withColumn (e : Entity) (column : String) (type : PseudoType) : Entity :=
  { e with
    columns := if (e.types.lookup column).isSome then e.columns else e.columns ++ [column]
    types := (column, type) :: e.types }

/-- The entity with another primary key; it is only checked when the entity is used. -/
def withPrimaryKey (e : Entity) (key : List String) : Entity :=
  { e with primaryKey := key }

/-- The table with a foreign key on a column, in place of one it may have had. -/
def withForeignKey (e : Entity) (column : String) (key : ForeignKey) : Entity :=
  { e with foreignKeys := (column, key) :: e.foreignKeys }

/-- The types that a list of columns settles: the first mention of a column counts, also where it
gives no type. -/
def firstTypes : List (String × Option PseudoType) → List (String × PseudoType)
  | [] => []
  | (column, type) :: rest =>
    let others := (firstTypes rest).filter (·.1 != column)
    match type with
    | some t => (column, t) :: others
    | none => others

/-- An entity with exactly these columns, repeated or without a type as they may be. -/
def ofColumns (table : String) (columns : List (String × Option PseudoType))
    (primaryKey : List String) : Entity :=
  { table, columns := columns.map (·.1), primaryKey, types := firstTypes columns,
    foreignKeys := [] }

end Entity

end Joinery
