import Joinery.Text.Split

/-!
# Names of tables and views

A table or view is named by its own name, or by a schema and its name with a dot
between them. The first dot divides them, so only the name can hold further dots.

`ObjectName.ofText` is what a table reference and, in `split_name`, a view statement
make of a name.
-/

namespace Joinery

/-- The name of a table or view, with the schema it is in when one is given. -/
structure ObjectName where
  schema : Option String
  name : String
  deriving DecidableEq, Repr

/-- Reads `name` or `schema.name`. -/
def ObjectName.ofText (text : String) : ObjectName :=
  match Text.cutFirst '.' text.toList with
  | some (schema, name) => ⟨some (String.ofList schema), String.ofList name⟩
  | none => ⟨none, text⟩

/-- The text spells the name. A schema ends at the first dot, so it has none itself, and a name
without a schema has none either. -/
inductive ObjectName.Spells : String → ObjectName → Prop
  | bare {name : String} : '.' ∉ name.toList → Spells name ⟨none, name⟩
  | qualified {schema name : String} :
      '.' ∉ schema.toList → Spells (schema ++ "." ++ name) ⟨some schema, name⟩

/-- Every text spells one name, the one that is read from it. -/
theorem ObjectName.ofText_eq_iff {text : String} {n : ObjectName} :
    ofText text = n ↔ Spells text n := by
  constructor
  · rintro rfl
    unfold ofText
    cases h : Text.cutFirst '.' text.toList with
    | none => exact .bare (Text.cutFirst_eq_none_iff.mp h)
    | some cut =>
      obtain ⟨schema, name⟩ := cut
      obtain ⟨htext, hschema⟩ := Text.eq_of_cutFirst h
      have hspelled : text = String.ofList schema ++ "." ++ String.ofList name := by
        apply String.toList_inj.mp
        simp [htext]
      rw [hspelled]
      exact .qualified (by simpa using hschema)
  · intro hspells
    cases hspells with
    | bare hname => rw [ofText, Text.cutFirst_eq_none_iff.mpr hname]
    | @qualified schema name hschema =>
      have htext : (schema ++ "." ++ name).toList = schema.toList ++ '.' :: name.toList := by simp
      rw [ofText, htext, Text.cutFirst_append_cons hschema]
      simp

end Joinery
