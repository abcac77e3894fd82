import Joinery.Sql.Token
import Joinery.Text.Blank
import Joinery.Text.Split

/-!
# Kinds of join

The six ways a table is joined, their keywords, and the reading of a kind from text.
Reading forgives case, and any run of blanks, underscores and hyphens separates words.

`keywordText` is the join type's `keyword`, `takesCondition` its `takes_condition`,
and `parse` its `from_str`.
-/

namespace Joinery

/-- How a table is joined to those before it. -/
inductive JoinKind
  | plain
  -- a join on every shared column name, which takes no condition
  | natural
  | left
  | inner
  | right
  | leftOuter
  deriving DecidableEq, Repr, Inhabited

/-- A text that names no kind of join, as it was given. -/
structure UnknownKind where
  text : String
  deriving DecidableEq, Repr

namespace JoinKind

/-- All kinds, in the order in which they are declared. -/
def all : List JoinKind :=
  [plain, natural, left, inner, right, leftOuter]

def keywords : JoinKind → List Keyword
  | plain => []
  | natural => [.NATURAL]
  | left => [.LEFT]
  | inner => [.INNER]
  | right => [.RIGHT]
  | leftOuter => [.LEFT, .OUTER]

def keywordText (kind : JoinKind) : String :=
  String.intercalate " " (kind.keywords.map Keyword.text)

/-- The name of a kind, as messages write it. -/
def name : JoinKind → String
  | plain => "PLAIN"
  | natural => "NATURAL"
  | left => "LEFT"
  | inner => "INNER"
  | right => "RIGHT"
  | leftOuter => "LEFT_OUTER"

/-- The kind with a name, read exactly as `name` writes it. -/
def ofName? (text : String) : Option JoinKind :=
  all.find? (·.name == text)

/-- Whether a join of this kind has an `ON` condition. -/
def takesCondition (kind : JoinKind) : Bool :=
  kind ≠ natural

/-- What may stand between the words of a join type. -/
def isSeparator (c : Char) : Bool :=
  Text.isBlank c || c == '_' || c == '-'

/-- The words of a text, in upper case as far as ASCII goes. -/
def wordsOf (text : String) : List String :=
  (Text.words isSeparator text.toList).map fun word => String.ofList (word.map Char.toUpper)

/-- The words of a text with an underscore between two. -/
def normalized (text : String) : String :=
  String.intercalate "_" (wordsOf text)

/-- The kind for words in capitals, joined by underscores. -/
def ofNormalized? : String → Option JoinKind
  | "" => some plain
  | "PLAIN" => some plain
  | "NATURAL" => some natural
  | "LEFT" => some left
  | "INNER" => some inner
  | "RIGHT" => some right
  | "LEFT_OUTER" => some leftOuter
  | _ => none

/-- Reads a kind, or answers with the text that names none. -/
def parse (text : String) : Except UnknownKind JoinKind :=
  match ofNormalized? (normalized text) with
  | some kind => .ok kind
  | none => .error ⟨text⟩

end JoinKind

end Joinery
