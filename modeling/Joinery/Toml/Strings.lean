import Joinery.Toml.Scan

/-!
# TOML strings

Four kinds: basic strings in double quotes, in which a backslash escapes, and literal
strings in single quotes, in which nothing does; each on one line, or over several lines
between tripled quotes.

Right before the closing quotes of a string over several lines one or two quotes may
stand that belong to the string. A line break right after its opening quotes does not.
-/

namespace Joinery.Toml

def isSpace (c : Char) : Bool :=
  c == ' ' || c == '\t'

def newline : Scan (List Char) :=
  (do Scan.char '\n'; return ['\n']) <|> (do Scan.text ['\r', '\n']; return ['\r', '\n'])

/-- What may stand in a comment or string: any character but the controls, of which the tab
may. -/
def isText (c : Char) : Bool :=
  c == '\t' || (0x20 ≤ c.toNat && c.toNat != 0x7f)

/-- The value of one hexadecimal digit. -/
def hexDigit : Scan Nat := do
  let c ← Scan.next
  if c.isDigit then return c.toNat - '0'.toNat
  if 'a' ≤ c && c ≤ 'f' then return c.toNat - 'a'.toNat + 10
  if 'A' ≤ c && c ≤ 'F' then return c.toNat - 'A'.toNat + 10
  failure

/-- The value of so many more hexadecimal digits, after those already read. -/
def hexDigits (start : Nat) : Nat → Scan Nat
  | 0 => pure start
  | width + 1 => do
    let d ← hexDigit
    hexDigits (start * 16 + d) width

/-- The character with a code point of so many hexadecimal digits, if there is one. -/
def codePoint (width : Nat) : Scan Char := do
  let code ← hexDigits 0 width
  if code.isValidChar then return Char.ofNat code else failure

/-- What an escape after its backslash stands for. -/
def escape : Scan Char := do
  match ← Scan.next with
  | 'b' => return '\x08'
  | 't' => return '\t'
  | 'n' => return '\n'
  | 'f' => return '\x0c'
  | 'r' => return '\r'
  | 'e' => return '\x1b'
  | '"' => return '"'
  | '\\' => return '\\'
  | 'x' => codePoint 2
  | 'u' => codePoint 4
  | 'U' => codePoint 8
  | _ => failure

def escaped : Scan (List Char) := do
  Scan.char '\\'
  let c ← escape
  return [c]

/-- At least one character with a property. -/
def some1 (property : Char → Bool) : Scan (List Char) := do
  let text ← Scan.run property
  guard !text.isEmpty
  return text

/-- A string in double quotes on one line. -/
def basicString : Scan (List Char) := do
  Scan.char '"'
  let parts ← Scan.many (some1 (fun c => isText c && c != '"' && c != '\\') <|> escaped)
  Scan.char '"'
  return parts.flatten

/-- A string in single quotes on one line, without escapes. -/
def literalString : Scan (List Char) := do
  Scan.char '\''
  let text ← Scan.run fun c => isText c && c != '\''
  Scan.char '\''
  return text

/-- A backslash at the end of a line, which swallows the blanks and line breaks that follow. -/
def continuation : Scan (List Char) := do
  Scan.char '\\'
  let _ ← Scan.run isSpace
  let _ ← newline
  let _ ← Scan.many (some1 isSpace <|> newline)
  return []

/-- Quotes inside a string over several lines: fewer than close it. -/
def innerQuotes (quote : Char) : Scan (List Char) := do
  let n ← Scan.upTo quote 5
  guard (0 < n && n < 3)
  return List.replicate n quote

/-- The quotes that close a string over several lines, and up to two of the string before. -/
def closingQuotes (quote : Char) : Scan (List Char) := do
  let n ← Scan.upTo quote 5
  guard (3 ≤ n)
  return List.replicate (n - 3) quote

/-- A string over several lines, of parts between its quotes. -/
def linesString (quote : Char) (part : Scan (List Char)) : Scan (List Char) := do
  Scan.text [quote, quote, quote]
  let _ ← Scan.perhaps newline
  let parts ← Scan.many (part <|> newline <|> innerQuotes quote)
  let last ← closingQuotes quote
  return parts.flatten ++ last

/-- A string in three double quotes over several lines. -/
def basicLines : Scan (List Char) :=
  linesString '"'
    (some1 (fun c => isText c && c != '"' && c != '\\') <|> continuation <|> escaped)

/-- A string in three single quotes over several lines. -/
def literalLines : Scan (List Char) :=
  linesString '\'' (some1 fun c => isText c && c != '\'')

/-- A string on one line, which can also be a key. -/
def lineString : Scan String := do
  let text ← basicString <|> literalString
  return String.ofList text

/-- A string in any form; the longer quotes go first. -/
def string : Scan String := do
  let text ← basicLines <|> literalLines <|> basicString <|> literalString
  return String.ofList text

end Joinery.Toml
