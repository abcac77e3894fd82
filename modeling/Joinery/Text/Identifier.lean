/-!
# Plain identifiers

A plain identifier is an ASCII letter or underscore followed by ASCII letters,
digits and underscores: what stands unquoted in a statement, and what an alias
may begin with.

`isPlainIdentifier` is `is_plain_identifier`.
-/

namespace Joinery.Text

/-- An ASCII letter or an underscore. -/
def isIdentifierStart (c : Char) : Bool :=
  c.isAlpha || c == '_'

/-- An ASCII letter, an ASCII digit or an underscore. -/
def isIdentifierPart (c : Char) : Bool :=
  c.isAlphanum || c == '_'

/-- Whether a text can stand as an identifier without quotes. -/
def isPlainIdentifier : List Char → Bool
  | [] => false
  | c :: rest => isIdentifierStart c && rest.all isIdentifierPart

/-- What can start an identifier can go on in it. -/
theorem isIdentifierPart_of_isIdentifierStart {c : Char} (h : isIdentifierStart c) :
    isIdentifierPart c := by
  simp only [isIdentifierStart, isIdentifierPart, Char.isAlphanum, Bool.or_eq_true] at h ⊢
  rcases h with h | h
  · exact .inl (.inl h)
  · exact .inr h

theorem all_isIdentifierPart_of_isPlainIdentifier {text : List Char}
    (h : isPlainIdentifier text) : text.all isIdentifierPart := by
  cases text with
  | nil => rfl
  | cons c rest =>
    simp only [isPlainIdentifier, Bool.and_eq_true] at h
    simp [isIdentifierPart_of_isIdentifierStart h.1, h.2]

end Joinery.Text
