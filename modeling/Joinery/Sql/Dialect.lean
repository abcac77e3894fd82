import Joinery.Text.Delimited
import Joinery.Text.Identifier

/-!
# SQL dialects

The five backends a statement can be written for, what each of them can express, and
how each of them writes identifiers and string literals.

A delimited identifier doubles its closing delimiter. Only the generic dialect leaves
plain identifiers bare. A string literal doubles the single quote, and T-SQL marks a
literal that leaves ASCII with `N`.

`quoteIdentifier` and `quoteString` are `quote_identifier` and `quote_string`, with
the helpers for each form of quotes; the `has…` functions are the dialect's
`supports_…`.
-/

namespace Joinery

/-- The SQL backend a statement is written for. -/
inductive Dialect
  | generic
  | postgres
  | mysql
  | sqlite
  | tsql
  deriving DecidableEq, Repr, Inhabited

namespace Dialect

/-- All dialects, in the order in which they are declared. -/
def all : List Dialect :=
  [generic, postgres, mysql, sqlite, tsql]

/-- The name of a dialect in settings and messages. -/
def name : Dialect → String
  | generic => "generic"
  | postgres => "postgres"
  | mysql => "mysql"
  | sqlite => "sqlite"
  | tsql => "tsql"

/-- The dialect with a name, read exactly as `name` writes it. -/
def ofName? (text : String) : Option Dialect :=
  all.find? (·.name == text)

/-! ## What a dialect can express -/

def concatOperator : Dialect → String
  | tsql => "+"
  | _ => "||"

/-- Whether the operator means concatenation. MySQL reads `||` as a logical or. -/
def hasConcatOperator : Dialect → Bool
  | mysql => false
  | _ => true

/-- T-SQL alone has no natural joins. -/
def hasNaturalJoin : Dialect → Bool
  | tsql => false
  | _ => true

def hasRightJoin : Dialect → Bool
  | _ => true

/-- SQLite and T-SQL cannot replace a view in the statement that creates it. -/
def hasCreateOrReplaceView : Dialect → Bool
  | sqlite | tsql => false
  | _ => true

/-- Every dialect can drop a view on the condition that it exists. -/
def hasDropIfExists : Dialect → Bool
  | _ => true

/-- T-SQL is the one dialect without natural joins. -/
theorem hasNaturalJoin_eq_false_iff {d : Dialect} : d.hasNaturalJoin = false ↔ d = tsql := by
  cases d <;> simp [hasNaturalJoin]

/-- SQLite and T-SQL are the dialects that cannot replace a view as they create it. -/
theorem hasCreateOrReplaceView_eq_false_iff {d : Dialect} :
    d.hasCreateOrReplaceView = false ↔ d = sqlite ∨ d = tsql := by
  cases d <;> simp [hasCreateOrReplaceView]

/-- Right joins are written in every dialect. -/
theorem hasRightJoin_eq_true (d : Dialect) : d.hasRightJoin = true :=
  rfl

/-! ## Identifiers and literals -/

def doubleQuoted (name : List Char) : List Char :=
  Text.delimited '"' '"' name

def backtickQuoted (name : List Char) : List Char :=
  Text.delimited '\x60' '\x60' name

/-- An identifier between square brackets, of which only the closing one is doubled. -/
def bracketQuoted (name : List Char) : List Char :=
  Text.delimited '[' ']' name

/-- An identifier as it is when plain, between double quotes otherwise. -/
def quotedIfNeeded (name : List Char) : List Char :=
  if Text.isPlainIdentifier name then name else doubleQuoted name

def singleQuoted (text : List Char) : List Char :=
  Text.delimited '\'' '\'' text

/-- A string literal marked as Unicode text. -/
def nationalQuoted (text : List Char) : List Char :=
  'N' :: singleQuoted text

/-- An identifier as the dialect writes it. -/
def identifierChars : Dialect → List Char → List Char
  | generic => quotedIfNeeded
  | postgres | sqlite => doubleQuoted
  | mysql => backtickQuoted
  | tsql => bracketQuoted

/-- Whether a text has only the first 128 characters. -/
def isAscii (text : List Char) : Bool :=
  text.all (·.toNat < 128)

/-- A string literal as the dialect writes it. -/
def stringChars (d : Dialect) (text : List Char) : List Char :=
  if d = tsql ∧ ¬ isAscii text then nationalQuoted text else singleQuoted text

/-- A name as the dialect spells it: plain, or in its delimiters. -/
def quoteIdentifier (d : Dialect) (name : String) : String :=
  String.ofList (d.identifierChars name.toList)

/-- A text as a literal of the dialect. -/
def quoteString (d : Dialect) (text : String) : String :=
  String.ofList (d.stringChars text.toList)

end Dialect

end Joinery
