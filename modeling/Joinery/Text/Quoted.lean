import Joinery.Text.Printable

/-!
# Quoted text in messages

A message shows a text between double quotes so that no character of it can hide or
be mistaken for the message's own: quotes and backslashes are escaped, four controls
go by name, and whatever does not show on its own goes by its code point in hex.
-/

namespace Joinery.Text

/-- A code point in lower-case hex without leading zeros, in braces. -/
def codeEscape (c : Char) : List Char :=
  ['\\', 'u', '\x7b'] ++ Nat.toDigits 16 c.toNat ++ ['\x7d']

def quotedChar (c : Char) : List Char :=
  match c with
  | '"' => ['\\', '"']
  | '\\' => ['\\', '\\']
  | '\t' => ['\\', 't']
  | '\r' => ['\\', 'r']
  | '\n' => ['\\', 'n']
  | '\x00' => ['\\', '0']
  | c => if isPrintable c then [c] else codeEscape c

/-- A text in double quotes, with every character visible. -/
def quoted (text : String) : String :=
  String.ofList ('"' :: text.toList.flatMap quotedChar ++ ['"'])

def quotedList (texts : List String) : String :=
  "[" ++ String.intercalate ", " (texts.map quoted) ++ "]"

end Joinery.Text
