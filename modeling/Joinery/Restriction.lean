import Joinery.Sql.Expr
import Joinery.Text.Split

/-!
# Restrictions

A restriction compares a column of a joined table with a column of a table that was
there before. Each side is a column as the user writes it, with or without a qualifier
that says whose column it is; `Comparison.predicate` is the expression that the
comparison of two columns stands for.

`ColumnSpec.ofText` is the column specification's `parse`, and of the restriction
compiler `Comparison.predicate` is `compile_columns` and `Restriction.predicate` is
`compile`.
-/

namespace Joinery

/-- A column as it is written: its name, and a qualifier before the last dot if there is a
dot. -/
structure ColumnSpec where
  qualifier : Option String
  column : String
  deriving DecidableEq, Repr

namespace ColumnSpec

/-- Reads `column` or `qualifier.column`, where only the qualifier can hold further dots. -/
def ofText (text : String) : ColumnSpec :=
  match Text.cutLast '.' text.toList with
  | some (qualifier, column) => ⟨some (String.ofList qualifier), String.ofList column⟩
  | none => ⟨none, text⟩

/-- The specification as it was written. -/
def text (spec : ColumnSpec) : String :=
  match spec.qualifier with
  | some qualifier => qualifier ++ "." ++ spec.column
  | none => spec.column

/-- Reading takes a column apart without loss. -/
theorem text_ofText (s : String) : (ofText s).text = s := by
  unfold ofText
  cases h : Text.cutLast '.' s.toList with
  | none => rfl
  | some cut =>
    obtain ⟨qualifier, column⟩ := cut
    have hs := (Text.eq_of_cutLast h).1
    apply String.toList_inj.1
    simp [text, hs]

/-- The qualifier, or another name where there is none. -/
def qualifierOr (spec : ColumnSpec) (fallback : String) : String :=
  spec.qualifier.getD fallback

end ColumnSpec

/-- How the two columns of a restriction are compared. -/
inductive Comparison
  | equals
  | notEquals
  -- the local column contains the remote value
  | like
  -- the local column is a member of the remote set
  | isIn
  deriving DecidableEq, Repr

namespace Comparison

/-- All comparisons, in the order in which they are declared. -/
def all : List Comparison :=
  [equals, notEquals, like, isIn]

/-- The name by which a comparison goes in texts. -/
def name : Comparison → String
  | equals => "EQUALS"
  | notEquals => "NOT_EQUALS"
  | like => "LIKE"
  | isIn => "IN"

/-- The comparison with a name, read exactly as `name` writes it. -/
def ofName? (text : String) : Option Comparison :=
  all.find? (·.name == text)

end Comparison

/-- How the comparison `notEquals` is written. -/
inductive NotEqualsForm
  | negated
  -- as an equality, which is how graphs used to be compiled
  | legacy
  deriving DecidableEq, Repr, Inhabited

namespace NotEqualsForm

/-- Both forms, the usual one first. -/
def all : List NotEqualsForm :=
  [negated, legacy]

/-- The name of a form in a settings file. -/
def name : NotEqualsForm → String
  | negated => "negated"
  | legacy => "legacy"

/-- The form with a name, read exactly as `name` writes it. -/
def ofName? (text : String) : Option NotEqualsForm :=
  all.find? (·.name == text)

end NotEqualsForm

/-- The predicate that compares a local with a remote expression. -/
def Comparison.predicate (form : NotEqualsForm) (c : Comparison) (left right : Expr) : Expr :=
  match c, form with
  | .equals, _ => .binary .eq left right
  | .notEquals, .negated => .binary .ne left right
  | .notEquals, .legacy => .binary .eq left right
  | .like, _ =>
    .binary .like left (.binary .concat (.binary .concat (.string "%") right) (.string "%"))
  | .isIn, _ => .isIn left [right] false

/-- A comparison of a column of the joined table, the local side, with one of another table, the
remote side. -/
structure Restriction where
  comparison : Comparison
  localSide : ColumnSpec
  remoteSide : ColumnSpec
  deriving DecidableEq, Repr

/-- The predicate of a restriction, where a side without qualifier belongs to the given alias. -/
def Restriction.predicate (form : NotEqualsForm) (r : Restriction)
    (localAlias remoteAlias : String) : Expr :=
  r.comparison.predicate form
    (.column (some (r.localSide.qualifierOr localAlias)) r.localSide.column)
    (.column (some (r.remoteSide.qualifierOr remoteAlias)) r.remoteSide.column)

end Joinery
