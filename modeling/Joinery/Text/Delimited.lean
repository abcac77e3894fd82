/-!
# Delimited text

A text stands between an opening and a closing delimiter, and a closing delimiter
inside it is written twice, so that a single one can only be the end of the text. This
is how identifiers and string literals of all dialects are written.

The helpers `quote_double`, `quote_backtick`, `quote_bracket` and
`quote_string_single` are this with their delimiters.
-/

namespace Joinery.Text

/-- Every `close` written twice, all else once. -/
def double (close : Char) : List Char → List Char
  | [] => []
  | c :: rest => if c = close then close :: close :: double close rest else c :: double close rest

/-- A text between its delimiters. -/
def delimited (opening close : Char) (text : List Char) : List Char :=
  opening :: double close text ++ [close]

/-- The closing delimiter stands between the text and what follows. -/
theorem delimited_append (opening close : Char) (text after : List Char) :
    delimited opening close text ++ after = opening :: (double close text ++ close :: after) := by
  rw [delimited, List.append_assoc, List.cons_append]
  rfl

/-- Between its delimiters even an empty text is something. -/
theorem delimited_ne_nil (opening close : Char) (text : List Char) :
    delimited opening close text ≠ [] :=
  List.cons_ne_nil _ _

end Joinery.Text
