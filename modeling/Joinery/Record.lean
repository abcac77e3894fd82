import Joinery.Entity
import Joinery.Sql.Dialect

/-!
# Records

A record is an instance of an entity: values by column, and the database it was read
through. Of the database only the dialect matters here.

`ofFields` makes a record, and `get?` is its `get`.
-/

namespace Joinery

/-- The value of one column. A floating-point value is the 64 bits it is stored in. -/
inductive Value
  | null
  | integer (value : Int64)
  | float (bits : UInt64)
  | text (value : String)
  | boolean (value : Bool)
  deriving DecidableEq, Repr

/-- A record: values by column for one entity, and the database they come from. -/
structure Record where
  entity : Entity
  values : List (String × Value)
  database : Option Dialect
  deriving Repr

namespace Record

/-- Fields with a value put under a column, in place of one that may be there. -/
def setField (column : String) (value : Value) : List (String × Value) → List (String × Value)
  | [] => [(column, value)]
  | (c, v) :: rest =>
    if c = column then (column, value) :: rest else (c, v) :: setField column value rest

/-- A record with these fields; of several values for one column the last counts. -/
def ofFields (entity : Entity) (fields : List (String × Value)) (database : Option Dialect) :
    Record :=
  { entity, values := fields.foldl (fun vs (column, value) => setField column value vs) [],
    database }

/-- The value of a column; null where the record has an entry without one. -/
def get? (r : Record) (column : String) : Option Value :=
  r.values.lookup column

/-- A field that is not there yet is appended. -/
theorem setField_of_notMem {column : String} {value : Value} {fields : List (String × Value)}
    (h : column ∉ fields.map (·.1)) :
    setField column value fields = fields ++ [(column, value)] := by
  induction fields with
  | nil => rfl
  | cons field rest ih =>
    rw [List.map_cons, List.mem_cons, not_or] at h
    rw [setField, if_neg (Ne.symm h.1), ih h.2]
    rfl

/-- Fields for different columns are the values of the record, in their order. -/
theorem values_ofFields (entity : Entity) (database : Option Dialect)
    {fields : List (String × Value)} (h : (fields.map (·.1)).Nodup) :
    (ofFields entity fields database).values = fields := by
  suffices ∀ values : List (String × Value), ((values ++ fields).map (·.1)).Nodup →
      fields.foldl (fun vs (column, value) => setField column value vs) values =
        values ++ fields from this [] h
  clear h
  induction fields with
  | nil => exact fun values _ => (List.append_nil values).symm
  | cons field rest ih =>
    intro values hnodup
    obtain ⟨column, value⟩ := field
    have hfresh : column ∉ values.map (·.1) := by
      rw [List.map_append, List.nodup_append] at hnodup
      exact fun hmem => hnodup.2.2 _ hmem _ (List.mem_cons_self ..) rfl
    rw [List.append_cons] at hnodup ⊢
    rw [List.foldl_cons]
    show rest.foldl _ (setField column value values) = _
    rw [setField_of_notMem hfresh]
    exact ih _ hnodup

end Record

end Joinery
