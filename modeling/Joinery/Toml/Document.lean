import Joinery.Toml.DateTime
import Joinery.Toml.Strings
import Joinery.Toml.Table

/-!
# TOML documents

A document is a sequence of statements, each on lines of its own: the header of a table,
the header of one more table under a repeated header, or the assignment of a value to a
key. `documentEntries?` reads a text as a document and builds the table it describes;
it gives none where the text breaks the grammar or defines a place twice.

Values nest at most `deepest` levels, and a path has at most as many keys.
-/

namespace Joinery.Toml

/-- How many arrays and tables in braces may stand in one another, and how many keys in a
path. -/
def deepest : Nat := 80

/-! ## Between the values -/

def spaces : Scan Unit := do
  let _ ← Scan.run isSpace

/-- A comment, up to the end of its line. -/
def comment : Scan Unit := do
  Scan.char '#'
  let _ ← Scan.run isText

/-- One piece of what may stand between values: a space, a line break or a comment. -/
def gapPiece : Scan Unit :=
  (do let _ ← some1 isSpace) <|> (do let _ ← newline) <|> comment

/-- Line breaks, spaces and comments, in any number. -/
def gap : Scan Unit := do
  let _ ← Scan.many gapPiece

/-- The end of a line: a line break, perhaps after a comment, or the end of the text. -/
def lineEnd : Scan Unit := do
  spaces
  let _ ← Scan.perhaps comment
  if !(← Scan.atEnd) then
    let _ ← newline

/-! ## Keys -/

/-- Whether a character can stand in a key without quotes. -/
def isBareKey (c : Char) : Bool :=
  c.isAlphanum || c == '_' || c == '-'

def simpleKey : Scan String :=
  (do let text ← some1 isBareKey; return String.ofList text) <|> lineString

def furtherKey : Scan String := do
  spaces
  Scan.char '.'
  spaces
  simpleKey

/-- The keys of a dotted key but the last, and the last. -/
def keyPath : Scan (List String × String) := do
  let first ← simpleKey
  let others ← Scan.many furtherKey
  let keys := first :: others
  guard (keys.length ≤ deepest)
  return (keys.dropLast, others.getLast?.getD first)

/-! ## Values -/

/-- Whether a character can be part of a value without quotes or brackets: any that is no blank,
ends no line and has no meaning between values. -/
def isAtom (c : Char) : Bool :=
  !isSpace c && !(['=', ',', '[', ']', '\x7b', '\x7d', '#', '\r', '\n'].contains c)

/-- Whether a character behind blanks goes on with the value before them. -/
def goesOn (c : Char) : Bool :=
  isAtom c && c != '.' && c != '"' && c != '\''

/-- The value that a whole text without quotes or brackets stands for. -/
def valueOfAtom? (text : List Char) : Option Value :=
  if text = "true".toList then some (.boolean true)
  else if text = "false".toList then some (.boolean false)
  else if isDateTime text then some (.dateTime (String.ofList text))
  else (Number.ofChars? text).map .number

/-- Blanks within a value without quotes, and what follows them. -/
def furtherAtom : Scan (List Char) := do
  let blanks ← some1 isSpace
  let first ← Scan.satisfying goesOn
  let rest ← Scan.run isAtom
  return blanks ++ first :: rest

/-- A value without quotes or brackets. Blanks inside it count as a part of it: they may stand
between a date and its time. -/
def atom : Scan Value := do
  let first ← some1 isAtom
  let others ← Scan.many furtherAtom
  StateT.lift (valueOfAtom? (first ++ others.flatten))

/-- Items with commas between them and perhaps one at the end, up to a closing character. -/
def itemsUntil {α : Type} (close : Char) (item : Scan α) : Scan (List α) := do
  gap
  let items ← Scan.many do
    let a ← item
    gap
    if !(← Scan.ahead (Scan.char close)) then
      Scan.char ','
      gap
    return a
  Scan.char close
  return items

def arrayOf (value : Scan Value) : Scan Value := do
  Scan.char '['
  let items ← itemsUntil ']' value
  return .array items

/-- The assignment of a value to a key or path of keys, with what may stand around the equals
sign. -/
def assignmentOf (around : Scan Unit) (value : Scan Value) :
    Scan (List String × String × Value) := do
  let (path, key) ← keyPath
  around
  Scan.char '='
  around
  let v ← value
  return (path, key, v)

/-- A table in braces, with values that a scan reads. Its assignments may go over several lines. -/
def bracesOf (value : Scan Value) : Scan Value := do
  Scan.char '\x7b'
  let items ← itemsUntil '\x7d' (assignmentOf gap value)
  let t ← StateT.lift <| items.foldlM (fun t (path, key, v) => Table.assign path key v t)
    ((.inline, []) : Table)
  return .table .inline t.2

/-- A value in which so many levels may still nest. -/
def valueWithin : Nat → Scan Value
  | 0 => (do let text ← string; return .string text) <|> atom
  | levels + 1 =>
    (do let text ← string; return .string text) <|> arrayOf (valueWithin levels)
      <|> bracesOf (valueWithin levels) <|> atom

/-- A value, nested as deeply as is allowed. -/
def value : Scan Value :=
  valueWithin deepest

/-! ## Statements -/

def headerStatement : Scan Statement := do
  Scan.char '['
  spaces
  let (path, key) ← keyPath
  spaces
  Scan.char ']'
  return .header path key

/-- The header of one more table under a repeated header. -/
def elementStatement : Scan Statement := do
  Scan.text ['[', '[']
  spaces
  let (path, key) ← keyPath
  spaces
  Scan.text [']', ']']
  return .element path key

/-- A key with its value, on a line of its own. -/
def assignmentStatement : Scan Statement := do
  let (path, key, v) ← assignmentOf spaces value
  return .assignment path key v

/-- One statement with the gap behind it. -/
def statement : Scan Statement := do
  let s ← elementStatement <|> headerStatement <|> assignmentStatement
  lineEnd
  gap
  return s

/-- The statements of a whole text, which may start with a byte order mark. -/
def statements : Scan (List Statement) := do
  let _ ← Scan.perhaps (Scan.char '\ufeff')
  gap
  Scan.many statement

/-- The entries of a whole document. -/
def documentEntries? (text : String) : Option Entries := do
  let ss ← Scan.whole? statements text.toList
  entriesOf? ss

end Joinery.Toml
