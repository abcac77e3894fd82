import Joinery.Sql.Dialect
import Joinery.Sql.Name
import Joinery.Text.Upper

/-!
# Tokens of a statement

A statement is a list of tokens until the very end, and only then text. Tokens say
what stands in the statement (a keyword, an identifier, a literal) and how it is laid
out (spaces, newlines, indents); the dialect settles how each of them is written.

There are two layouts. `render` writes every token. `renderCompact` keeps a statement
on one line: a run of layout tokens becomes one space, if it holds more than indents
and stands between two texts.

`render` and `renderCompact` are `serialize` and `serialize_compact`.
-/

namespace Joinery

/-- The keywords that occur in statements. -/
inductive Keyword
  | SELECT | FROM | WHERE | AND | NOT | AS | ON | JOIN | NATURAL | INNER | LEFT | RIGHT | OUTER
  | IN | LIKE | CREATE | OR | REPLACE | DROP | VIEW | IF | EXISTS
  deriving DecidableEq, Repr

namespace Keyword

def all : List Keyword :=
  [SELECT, FROM, WHERE, AND, NOT, AS, ON, JOIN, NATURAL, INNER, LEFT, RIGHT, OUTER, IN, LIKE,
    CREATE, OR, REPLACE, DROP, VIEW, IF, EXISTS]

def text : Keyword → String
  | SELECT => "SELECT"
  | FROM => "FROM"
  | WHERE => "WHERE"
  | AND => "AND"
  | NOT => "NOT"
  | AS => "AS"
  | ON => "ON"
  | JOIN => "JOIN"
  | NATURAL => "NATURAL"
  | INNER => "INNER"
  | LEFT => "LEFT"
  | RIGHT => "RIGHT"
  | OUTER => "OUTER"
  | IN => "IN"
  | LIKE => "LIKE"
  | CREATE => "CREATE"
  | OR => "OR"
  | REPLACE => "REPLACE"
  | DROP => "DROP"
  | VIEW => "VIEW"
  | IF => "IF"
  | EXISTS => "EXISTS"

end Keyword

/-- The smallest parts of a text, white space among them. -/
inductive Token
  | keyword (k : Keyword)
  | comma
  | dot
  | openParen
  | closeParen
  | equal
  | notEqual
  | concat
  | space
  | newline
  | indent (levels : Nat)
  | identifier (name : String)
  | qualified (name : ObjectName)
  | integer (value : Int64)
  | string (value : String)
  | function (name : String)
  deriving DecidableEq, Repr

namespace Token

/-- A token as the dialect writes it. -/
def chars (d : Dialect) : Token → List Char
  | keyword k => k.text.toList
  | comma => [',']
  | dot => ['.']
  | openParen => ['(']
  | closeParen => [')']
  | equal => ['=']
  | notEqual => ['<', '>']
  | concat => d.concatOperator.toList
  | space => [' ']
  | newline => ['\n']
  | indent levels => List.replicate (2 * levels) ' '
  | identifier name => d.identifierChars name.toList
  | qualified ⟨none, name⟩ => d.identifierChars name.toList
  | qualified ⟨some schema, name⟩ =>
    d.identifierChars schema.toList ++ '.' :: d.identifierChars name.toList
  | integer value => (toString value.toInt).toList
  | string value => d.stringChars value.toList
  | function name => Text.upper name.toList

/-- Whether a token only lays the statement out. -/
def isLayout : Token → Bool
  | space | newline | indent _ => true
  | _ => false

/-- Whether a layout token sets the texts around it apart on a single line. -/
def separates : Token → Bool
  | space | newline => true
  | _ => false

def render (d : Dialect) (t : Token) : String :=
  String.ofList (t.chars d)

end Token

/-- A text in the making: its tokens in order. -/
abbrev Tokens := List Token

namespace Tokens

/-- The text of a list of tokens, layout as it stands. -/
def chars (d : Dialect) (ts : Tokens) : List Char :=
  ts.flatMap (·.chars d)

/-- The text of a list of tokens on one line. `started` holds when text stands before it, and
`pending` when a separator was met since that text. -/
def compactFrom (d : Dialect) (started pending : Bool) : Tokens → List Char
  | [] => []
  | t :: rest =>
    if t.isLayout then compactFrom d started (pending || t.separates) rest
    else
      let text := t.chars d
      let gap := if pending && started then [' '] else []
      gap ++ text ++ compactFrom d (started || !text.isEmpty) false rest

/-- The text of a list of tokens on one line. -/
def compactChars (d : Dialect) (ts : Tokens) : List Char :=
  compactFrom d false false ts

/-- The text of tokens, each white space as it stands. -/
def render (d : Dialect) (ts : Tokens) : String :=
  String.ofList (chars d ts)

/-- The text of a list of tokens on one line. -/
def renderCompact (d : Dialect) (ts : Tokens) : String :=
  String.ofList (compactChars d ts)

end Tokens

end Joinery
