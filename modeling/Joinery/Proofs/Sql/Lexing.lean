import Mathlib.Data.List.Basic
import Joinery.Sql.Token
import Joinery.Text.Blank

/-!
# Statements as lexemes

The text of a statement is read back in two stages, of which this is the first: `lex` cuts
it into lexemes by the rules that a dialect has for them. A delimited identifier or a string
literal ends at the first closing delimiter that is not doubled, a word is a run of letters,
digits and underscores, and white space only sets lexemes apart.

The theorems say that what the tokens of a statement are survives, in either layout
(`lex_chars`, `lex_compactChars`). The reason is the same for both. A token that could run on
into what follows it, a word or something delimited, is followed by a token that begins with
white space or with a mark that no lexeme goes on with; `WellSpelled` says so of a list of
tokens. Each token is then read as itself in front of any such rest (`lex_token`), and the
layouts differ in the white space between tokens only.

The layouts are `Tokens.render` and `Tokens.renderCompact`.
-/

namespace Joinery

namespace Text

/-- The text up to the first `close` that is not doubled, and what follows it. -/
def upToClose (close : Char) : List Char → Option (List Char × List Char)
  | [] => none
  | [c] => if c = close then some ([], []) else none
  | c :: d :: rest =>
    if c = close then
      if d = close then (upToClose close rest).map fun (text, after) => (close :: text, after)
      else some ([], d :: rest)
    else (upToClose close (d :: rest)).map fun (text, after) => (c :: text, after)

/-- Any character but the closing quote belongs to the text. -/
theorem upToClose_cons_of_ne {close c : Char} (h : c ≠ close) (rest : List Char) :
    upToClose close (c :: rest) =
      (upToClose close rest).map fun (text, after) => (c :: text, after) := by
  cases rest with
  | nil =>
    show (if c = close then some ([], []) else none) = none
    rw [if_neg h]
  | cons d rest => rw [upToClose, if_neg h]

/-- What is made of a text that was read leaves what follows it. -/
theorem exists_of_map_read {α β : Type} {read : Option (α × List Char)} {make : α → β} {b : β}
    {after : List Char} (h : (read.map fun (a, after) => (make a, after)) = some (b, after)) :
    ∃ a, read = some (a, after) ∧ b = make a := by
  obtain ⟨⟨a, _⟩, hread, hmade⟩ := Option.map_eq_some_iff.mp h
  obtain ⟨rfl, rfl⟩ := Prod.mk.inj hmade
  exact ⟨a, hread, rfl⟩

/-- A text is found again up to its closing delimiter, whatever it holds itself, if the delimiter
does not go on after it. -/
theorem upToClose_double {close : Char} {after : List Char} (h : ∀ c ∈ after.head?, c ≠ close)
    (text : List Char) : upToClose close (double close text ++ close :: after) = some (text, after) := by
  induction text with
  | nil =>
    cases after with
    | nil => simp [double, upToClose]
    | cons d after =>
      have hd : d ≠ close := h d rfl
      simp [double, upToClose, hd]
  | cons c rest ih =>
    by_cases hc : c = close
    · simp [double, upToClose, hc, ih]
    · simp [double, upToClose_cons_of_ne hc, hc, ih]

end Text

/-! ## Lexemes -/

/-- The marks of a statement. -/
inductive Mark
  | comma
  | dot
  | openParen
  | closeParen
  | equal
  | notEqual
  | concat
  deriving DecidableEq, Repr

namespace Mark

def all : List Mark :=
  [comma, dot, openParen, closeParen, equal, notEqual, concat]

/-- A mark as the dialect writes it. -/
def chars (d : Dialect) : Mark → List Char
  | comma => [',']
  | dot => ['.']
  | openParen => ['(']
  | closeParen => [')']
  | equal => ['=']
  | notEqual => ['<', '>']
  | concat => d.concatOperator.toList

end Mark

/-- What a statement is made of, apart from white space. -/
inductive Lexeme
  -- a run of letters, digits and underscores
  | word (text : List Char)
  -- a delimited identifier, by the text that it delimits
  | name (text : List Char)
  -- a string literal by its value, and whether it is marked as national
  | literal (national : Bool) (text : List Char)
  | mark (m : Mark)
  deriving DecidableEq, Repr

/-- What opens and what closes a delimited identifier. -/
def Dialect.delimiters : Dialect → Char × Char
  | generic | postgres | sqlite => ('"', '"')
  | mysql => ('\x60', '\x60')
  | tsql => ('[', ']')

/-- The mark that a text begins with, and what follows it. -/
def mark? (d : Dialect) (text : List Char) : Option (Lexeme × List Char) :=
  Mark.all.findSome? fun m =>
    (List.isPrefixOf? (m.chars d) text).map fun after => (.mark m, after)

/-- The lexeme that a text begins with, and what follows it. -/
def lexeme? (d : Dialect) : List Char → Option (Lexeme × List Char)
  | [] => none
  | c :: rest =>
    if c = d.delimiters.1 then
      (Text.upToClose d.delimiters.2 rest).map fun (text, after) => (.name text, after)
    else if c = '\'' then
      (Text.upToClose '\'' rest).map fun (text, after) => (.literal false text, after)
    else if d = .tsql ∧ c = 'N' ∧ rest.head? = some '\'' then
      (Text.upToClose '\'' rest.tail).map fun (text, after) => (.literal true text, after)
    else if Text.isIdentifierPart c then
      some (.word (c :: rest.takeWhile Text.isIdentifierPart),
        rest.dropWhile Text.isIdentifierPart)
    else mark? d (c :: rest)

/-- The lexemes of a text, or `none` where something in it is no lexeme. -/
def lex (d : Dialect) : List Char → Option (List Lexeme)
  | [] => some []
  | c :: rest =>
    if Text.isBlank c then lex d rest
    else
      match lexeme? d (c :: rest) with
      | none => none
      | some (l, after) =>
        if _h : after.length < (c :: rest).length then (lex d after).map (l :: ·) else none
termination_by text => text.length
decreasing_by
  · exact Nat.lt_succ_self _
  · exact _h

theorem lex_nil (d : Dialect) : lex d [] = some [] := by
  rw [lex]

/-- Blanks in front have no part in the lexemes. -/
theorem lex_cons_of_isBlank {d : Dialect} {c : Char} (h : Text.isBlank c) (rest : List Char) :
    lex d (c :: rest) = lex d rest := by
  rw [lex, if_pos h]

/-- White space in front of a text changes nothing. -/
theorem lex_append_of_isBlank {d : Dialect} {gap : List Char} (h : ∀ c ∈ gap, Text.isBlank c)
    (rest : List Char) : lex d (gap ++ rest) = lex d rest := by
  induction gap with
  | nil => rfl
  | cons c gap ih =>
    rw [List.cons_append, lex_cons_of_isBlank (h c (List.mem_cons_self ..))]
    exact ih fun d hd => h d (List.mem_cons_of_mem _ hd)

/-! ## What ends a lexeme -/

/-- White space is no part of an identifier. -/
theorem Text.isIdentifierPart_of_isBlank {c : Char} (h : isBlank c) :
    isIdentifierPart c = false := by
  have hcode : ¬ (48 ≤ c.toNat ∧ c.toNat ≤ 122) := by
    simp [isBlank, inRanges, blankRanges] at h
    omega
  rw [← Bool.not_eq_true]
  intro hpart
  apply hcode
  delta isIdentifierPart Char.isAlphanum Char.isAlpha Char.isUpper Char.isLower Char.isDigit at hpart
  simp only [Bool.or_eq_true, Bool.and_eq_true, decide_eq_true_eq, beq_iff_eq, ge_iff_le,
    UInt32.le_iff_toNat_le] at hpart
  rcases hpart with ((⟨hlow, hhigh⟩ | ⟨hlow, hhigh⟩) | ⟨hlow, hhigh⟩) | rfl
  · exact ⟨Nat.le_trans (by decide) hlow, Nat.le_trans hhigh (by decide)⟩
  · exact ⟨Nat.le_trans (by decide) hlow, Nat.le_trans hhigh (by decide)⟩
  · exact ⟨hlow, Nat.le_trans hhigh (by decide)⟩
  · decide

/-- Whether no lexeme that was begun goes on with the character. -/
def endsLexeme (c : Char) : Bool :=
  Text.isBlank c || [',', '.', '(', ')'].contains c

/-- Nothing follows, or what follows ends the lexeme before it. -/
def Parted (rest : List Char) : Prop :=
  ∀ c ∈ rest.head?, endsLexeme c = true

theorem Parted.nil : Parted [] :=
  fun _ hc => absurd hc (by simp)

/-- A character that ends a lexeme parts what is before it from what follows. -/
theorem Parted.cons {c : Char} (h : endsLexeme c = true) (rest : List Char) : Parted (c :: rest) := by
  intro d hd
  rw [List.head?_cons, Option.mem_some_iff] at hd
  rw [← hd]
  exact h

/-- What ends a lexeme cannot stand in an identifier. -/
theorem isIdentifierPart_of_endsLexeme {c : Char} (h : endsLexeme c = true) :
    Text.isIdentifierPart c = false := by
  rcases Bool.or_eq_true_iff.mp h with hblank | hmark
  · exact Text.isIdentifierPart_of_isBlank hblank
  · rw [List.contains_iff_mem] at hmark
    simp only [List.mem_cons, List.not_mem_nil, or_false] at hmark
    rcases hmark with rfl | rfl | rfl | rfl <;> decide

/-- A text that is parted does not start with a character that goes on. -/
theorem Parted.head_ne {rest : List Char} (h : Parted rest) {d : Char}
    (hd : endsLexeme d = false) : ∀ c ∈ rest.head?, c ≠ d := by
  intro c hc heq
  have hends := h c hc
  rw [heq, hd] at hends
  exact absurd hends (by simp)

/-- What can stand in an identifier is no blank. -/
theorem isBlank_of_isIdentifierPart {c : Char} (h : Text.isIdentifierPart c = true) :
    Text.isBlank c = false := by
  rw [← Bool.not_eq_true]
  intro hblank
  rw [Text.isIdentifierPart_of_isBlank hblank] at h
  exact absurd h (by simp)

/-! ## One lexeme at a time -/

def Text.isWord (text : List Char) : Bool :=
  !text.isEmpty && text.all isIdentifierPart

/-- A word is made of characters that can stand in an identifier. -/
theorem Text.isWord_cons {c : Char} {text : List Char} (h : isWord (c :: text) = true) :
    isIdentifierPart c = true ∧ ∀ d ∈ text, isIdentifierPart d = true := by
  simpa [isWord] using h

theorem Text.isWord_of_isPlainIdentifier {text : List Char} (h : isPlainIdentifier text = true) :
    isWord text = true := by
  have hall := all_isIdentifierPart_of_isPlainIdentifier h
  cases text with
  | nil => exact absurd h (by simp [isPlainIdentifier])
  | cons c rest =>
    rw [isWord, hall]
    rfl

/-- A character of a word opens nothing that is delimited. -/
theorem ne_of_isIdentifierPart {c d : Char} (h : Text.isIdentifierPart c = true)
    (hd : Text.isIdentifierPart d = false) : c ≠ d := by
  intro heq
  rw [heq, hd] at h
  exact absurd h (by simp)

/-- Delimiters cannot stand in an identifier. -/
theorem isIdentifierPart_delimiters (d : Dialect) :
    Text.isIdentifierPart d.delimiters.1 = false := by
  cases d <;> decide

/-- A word is read up to the first character that cannot belong to it. -/
theorem lexeme?_word {d : Dialect} {text after : List Char} (hw : Text.isWord text = true)
    (hafter : ∀ c ∈ after.head?, Text.isIdentifierPart c = false)
    (hquote : d = .tsql → after.head? ≠ some '\'') :
    lexeme? d (text ++ after) = some (.word text, after) := by
  cases text with
  | nil => exact absurd hw (by decide)
  | cons c text =>
    obtain ⟨hc, htext⟩ := Text.isWord_cons hw
    have htake : after.takeWhile Text.isIdentifierPart = [] := by
      cases after with
      | nil => rfl
      | cons e after => rw [List.takeWhile_cons, hafter e rfl]; rfl
    have hdrop : after.dropWhile Text.isIdentifierPart = after := by
      cases after with
      | nil => rfl
      | cons e after => rw [List.dropWhile_cons, hafter e rfl]; rfl
    -- the word N is no mark of a literal, since no quote follows it directly
    have hplain : ¬ (d = .tsql ∧ c = 'N' ∧ (text ++ after).head? = some '\'') := by
      rintro ⟨htsql, _, hhead⟩
      cases text with
      | nil => exact hquote htsql hhead
      | cons e text =>
        have he := htext e (List.mem_cons_self ..)
        exact ne_of_isIdentifierPart he (by decide) (Option.some.inj hhead)
    rw [List.cons_append, lexeme?,
      if_neg (ne_of_isIdentifierPart hc (isIdentifierPart_delimiters d)),
      if_neg (ne_of_isIdentifierPart hc (by decide)), if_neg hplain, if_pos hc,
      List.takeWhile_append_of_pos htext, List.dropWhile_append_of_pos htext, htake, hdrop,
      List.append_nil]

theorem lexeme?_name (d : Dialect) (text : List Char) {after : List Char}
    (hafter : ∀ c ∈ after.head?, c ≠ d.delimiters.2) :
    lexeme? d (Text.delimited d.delimiters.1 d.delimiters.2 text ++ after) =
      some (.name text, after) := by
  rw [Text.delimited_append, lexeme?, if_pos rfl, Text.upToClose_double hafter]
  rfl

theorem lexeme?_singleQuoted (d : Dialect) (text : List Char) {after : List Char}
    (hafter : ∀ c ∈ after.head?, c ≠ '\'') :
    lexeme? d (Dialect.singleQuoted text ++ after) = some (.literal false text, after) := by
  rw [Dialect.singleQuoted, Text.delimited_append, lexeme?, if_neg (by cases d <;> decide),
    if_pos rfl, Text.upToClose_double hafter]
  rfl

/-- Only T-SQL has literals that are marked. -/
theorem lexeme?_nationalQuoted (text : List Char) {after : List Char}
    (hafter : ∀ c ∈ after.head?, c ≠ '\'') :
    lexeme? .tsql (Dialect.nationalQuoted text ++ after) = some (.literal true text, after) := by
  rw [Dialect.nationalQuoted, List.cons_append, Dialect.singleQuoted, Text.delimited_append,
    lexeme?, if_neg (by decide), if_neg (by decide), if_pos ⟨rfl, rfl, rfl⟩, List.tail_cons,
    Text.upToClose_double hafter]
  rfl

theorem Mark.chars_ne_nil (d : Dialect) (m : Mark) : m.chars d ≠ [] := by
  cases d <;> cases m <;> decide

/-- A mark is read as itself, whatever follows. -/
theorem lexeme?_mark (d : Dialect) (m : Mark) (after : List Char) :
    lexeme? d (m.chars d ++ after) = some (.mark m, after) := by
  cases d <;> cases m <;> rfl

/-! ## From the first lexeme to the others -/

theorem isBlank_of_mark? {d : Dialect} {c : Char} {rest after : List Char} {l : Lexeme}
    (h : mark? d (c :: rest) = some (l, after)) : Text.isBlank c = false := by
  obtain ⟨m, _, hm⟩ := List.exists_of_findSome?_eq_some h
  obtain ⟨tail, htail, _⟩ := Option.map_eq_some_iff.mp hm
  have htext : m.chars d ++ tail = c :: rest := List.append_eq_of_isPrefixOf?_eq_some htail
  cases d <;> cases m <;> rw [← (List.cons.inj htext).1] <;> decide

/-- White space begins no lexeme. -/
theorem isBlank_of_lexeme? {d : Dialect} {c : Char} {rest after : List Char} {l : Lexeme}
    (h : lexeme? d (c :: rest) = some (l, after)) : Text.isBlank c = false := by
  rw [lexeme?] at h
  split at h
  next hopen =>
    rw [hopen]
    cases d <;> decide
  next =>
    split at h
    next hquote =>
      rw [hquote]
      decide
    next =>
      split at h
      next hnational =>
        rw [hnational.2.1]
        decide
      next =>
        split at h
        next hpart => exact isBlank_of_isIdentifierPart hpart
        next => exact isBlank_of_mark? h

/-- A text that begins with a lexeme consists of it and of what follows. -/
theorem lex_append_of_lexeme? {d : Dialect} {text after : List Char} {l : Lexeme}
    (hne : text ≠ []) (h : lexeme? d (text ++ after) = some (l, after)) :
    lex d (text ++ after) = (lex d after).map (l :: ·) := by
  cases text with
  | nil => exact absurd rfl hne
  | cons c text =>
    have hshort : after.length < (c :: (text ++ after)).length := by
      rw [List.length_cons, List.length_append]
      omega
    rw [List.cons_append] at h ⊢
    rw [lex, if_neg (by rw [isBlank_of_lexeme? h]; decide), h]
    simp only
    rw [dif_pos hshort]

theorem lex_word (d : Dialect) {text after : List Char} (hw : Text.isWord text = true)
    (hafter : Parted after) : lex d (text ++ after) = (lex d after).map (.word text :: ·) := by
  have hne : text ≠ [] := by
    rintro rfl
    exact absurd hw (by decide)
  refine lex_append_of_lexeme? hne (lexeme?_word hw ?_ fun _ hhead => ?_)
  · exact fun c hc => isIdentifierPart_of_endsLexeme (hafter c hc)
  · exact hafter.head_ne (by decide) '\'' hhead rfl

theorem lex_mark (d : Dialect) (m : Mark) (after : List Char) :
    lex d (m.chars d ++ after) = (lex d after).map (.mark m :: ·) :=
  lex_append_of_lexeme? (m.chars_ne_nil d) (lexeme?_mark d m after)

/-! ## Tokens -/

/-- What an identifier is read as: only the generic dialect leaves some of them bare. -/
def Dialect.identifierLexeme (d : Dialect) (name : List Char) : Lexeme :=
  if d = .generic ∧ Text.isPlainIdentifier name then .word name else .name name

/-- Nothing follows that a written name would go on with: neither what closes it nor a part of an
identifier. -/
def Dialect.EndsName (d : Dialect) (after : List Char) : Prop :=
  ∀ c ∈ after.head?, c ≠ d.delimiters.2 ∧ Text.isIdentifierPart c = false

theorem Parted.endsName {after : List Char} (h : Parted after) (d : Dialect) : d.EndsName after := by
  intro c hc
  exact ⟨h.head_ne (by cases d <;> decide) c hc, isIdentifierPart_of_endsLexeme (h c hc)⟩

/-- An identifier is read as the lexeme of its name, plain or delimited. -/
theorem lexeme?_identifier {d : Dialect} {after : List Char} (hafter : d.EndsName after)
    (name : List Char) :
    lexeme? d (d.identifierChars name ++ after) = some (d.identifierLexeme name, after) := by
  have hclose : ∀ c ∈ after.head?, c ≠ d.delimiters.2 := fun c hc => (hafter c hc).1
  cases d with
  | generic =>
    show lexeme? .generic (Dialect.quotedIfNeeded name ++ after) = _
    unfold Dialect.quotedIfNeeded Dialect.identifierLexeme
    split
    next hplain =>
      rw [if_pos ⟨rfl, hplain⟩]
      exact lexeme?_word (Text.isWord_of_isPlainIdentifier hplain) (fun c hc => (hafter c hc).2)
        (fun h => nomatch h)
    next hquoted =>
      rw [if_neg (fun h => hquoted h.2)]
      exact lexeme?_name .generic name hclose
  | postgres => exact lexeme?_name .postgres name hclose
  | sqlite => exact lexeme?_name .sqlite name hclose
  | mysql => exact lexeme?_name .mysql name hclose
  | tsql => exact lexeme?_name .tsql name hclose

theorem Dialect.identifierChars_ne_nil (d : Dialect) (name : List Char) :
    d.identifierChars name ≠ [] := by
  cases d with
  | generic =>
    show quotedIfNeeded name ≠ []
    unfold quotedIfNeeded
    split
    next hplain =>
      rintro rfl
      exact absurd hplain (by decide)
    next => exact Text.delimited_ne_nil _ _ name
  | postgres | mysql | sqlite | tsql => exact Text.delimited_ne_nil _ _ name

/-- An identifier in front is the first lexeme. -/
theorem lex_identifier (d : Dialect) (name : List Char) {after : List Char}
    (hafter : Parted after) :
    lex d (d.identifierChars name ++ after) =
      (lex d after).map (d.identifierLexeme name :: ·) :=
  lex_append_of_lexeme? (d.identifierChars_ne_nil name) (lexeme?_identifier (hafter.endsName d) name)

/-- Whether a dialect marks a string literal as national. -/
def Dialect.isNational (d : Dialect) (text : List Char) : Bool :=
  d = .tsql ∧ ¬ Dialect.isAscii text

/-- A literal is read as the text it stands for. -/
theorem lexeme?_string (d : Dialect) (text : List Char) {after : List Char}
    (hafter : ∀ c ∈ after.head?, c ≠ '\'') :
    lexeme? d (d.stringChars text ++ after) = some (.literal (d.isNational text) text, after) := by
  unfold Dialect.stringChars Dialect.isNational
  split
  next hnational =>
    rw [decide_eq_true hnational, hnational.1]
    exact lexeme?_nationalQuoted text hafter
  next hplain =>
    rw [decide_eq_false hplain]
    exact lexeme?_singleQuoted d text hafter

theorem Dialect.stringChars_ne_nil (d : Dialect) (text : List Char) : d.stringChars text ≠ [] := by
  unfold stringChars
  split
  next => exact List.cons_ne_nil _ _
  next => exact Text.delimited_ne_nil _ _ text

theorem lex_string (d : Dialect) (text : List Char) {after : List Char} (hafter : Parted after) :
    lex d (d.stringChars text ++ after) =
      (lex d after).map (.literal (d.isNational text) text :: ·) :=
  lex_append_of_lexeme? (d.stringChars_ne_nil text)
    (lexeme?_string d text (hafter.head_ne (by decide)))

namespace Token

/-- What a token is read as; layout is read as nothing. -/
def lexemes (d : Dialect) : Token → List Lexeme
  | keyword k => [.word k.text.toList]
  | comma => [.mark .comma]
  | dot => [.mark .dot]
  | openParen => [.mark .openParen]
  | closeParen => [.mark .closeParen]
  | equal => [.mark .equal]
  | notEqual => [.mark .notEqual]
  | concat => [.mark .concat]
  | space | newline | indent _ => []
  | identifier name => [d.identifierLexeme name.toList]
  | qualified ⟨none, name⟩ => [d.identifierLexeme name.toList]
  | qualified ⟨some schema, name⟩ =>
    [d.identifierLexeme schema.toList, .mark .dot, d.identifierLexeme name.toList]
  | integer value => [.word (toString value.toInt).toList]
  | string value => [.literal (d.isNational value.toList) value.toList]
  | function name => [.word (Text.upper name.toList)]

/-- Whether numbers and functions are words. -/
def isRegular : Token → Bool
  | integer value => Text.isWord (toString value.toInt).toList
  | function name => Text.isWord (Text.upper name.toList)
  | _ => true

/-- Whether anything can follow the token directly. -/
def isClosed : Token → Bool
  | comma | dot | openParen | closeParen | equal | notEqual | concat => true
  | space | newline | indent _ => true
  | _ => false

/-- Whether the token ends what stands before it. -/
def isBreak : Token → Bool
  | comma | dot | openParen | closeParen | space | newline => true
  | _ => false

theorem isWord_keyword (k : Keyword) : Text.isWord k.text.toList = true := by
  cases k <;> decide

end Token

/-- A token is read as what it is, if nothing follows that it could run on into. -/
theorem lex_token (d : Dialect) {t : Token} (hlayout : t.isLayout = false)
    (hregular : t.isRegular = true) {after : List Char} (h : t.isClosed = true ∨ Parted after) :
    lex d (t.chars d ++ after) = (lex d after).map (t.lexemes d ++ ·) := by
  cases t with
  | keyword k => exact lex_word d (Token.isWord_keyword k) (h.resolve_left (by simp [Token.isClosed]))
  | comma => exact lex_mark d .comma after
  | dot => exact lex_mark d .dot after
  | openParen => exact lex_mark d .openParen after
  | closeParen => exact lex_mark d .closeParen after
  | equal => exact lex_mark d .equal after
  | notEqual => exact lex_mark d .notEqual after
  | concat => exact lex_mark d .concat after
  | space => exact absurd hlayout (by decide)
  | newline => exact absurd hlayout (by decide)
  | indent levels => exact absurd hlayout (by simp [Token.isLayout])
  | identifier name => exact lex_identifier d name.toList (h.resolve_left (by simp [Token.isClosed]))
  | qualified name =>
    have hafter := h.resolve_left (by simp [Token.isClosed])
    obtain ⟨schema, name⟩ := name
    cases schema with
    | none => exact lex_identifier d name.toList hafter
    | some schema =>
      have hdot := lex_mark d .dot (d.identifierChars name.toList ++ after)
      show lex d ((d.identifierChars schema.toList ++ '.' :: d.identifierChars name.toList)
        ++ after) = _
      rw [List.append_assoc, List.cons_append, lex_identifier d _ (.cons (by decide) _)]
      show (lex d (Mark.dot.chars d ++ (d.identifierChars name.toList ++ after))).map _ = _
      rw [hdot, lex_identifier d _ hafter, Option.map_map, Option.map_map]
      rfl
  | integer value => exact lex_word d hregular (h.resolve_left (by simp [Token.isClosed]))
  | string value => exact lex_string d value.toList (h.resolve_left (by simp [Token.isClosed]))
  | function name => exact lex_word d hregular (h.resolve_left (by simp [Token.isClosed]))

/-! ## Layouts -/

namespace Tokens

/-- Nothing follows, or a token that ends what stands before it. -/
def BreakNext (ts : Tokens) : Prop :=
  ∀ t ∈ ts.head?, t.isBreak = true

/-- No token runs on into the next, in either layout. -/
def WellSpelled : Tokens → Prop
  | [] => True
  | t :: rest => t.isRegular = true ∧ (t.isClosed = true ∨ BreakNext rest) ∧ WellSpelled rest

/-- The lexemes of tokens: those of each in turn. -/
def lexemes (d : Dialect) (ts : Tokens) : List Lexeme :=
  ts.flatMap (Token.lexemes d)

theorem lexemes_cons (d : Dialect) (t : Token) (ts : Tokens) :
    lexemes d (t :: ts) = t.lexemes d ++ lexemes d ts :=
  List.flatMap_cons

/-- The lexemes of two parts follow one another. -/
theorem lexemes_append (d : Dialect) (ts us : Tokens) :
    lexemes d (ts ++ us) = lexemes d ts ++ lexemes d us :=
  List.flatMap_append

theorem lexemes_of_isLayout {d : Dialect} {t : Token} (h : t.isLayout = true) :
    t.lexemes d = [] := by
  cases t with
  | space | newline | indent levels => rfl
  | _ => exact absurd h (by simp [Token.isLayout])

theorem isBlank_of_isLayout {d : Dialect} {t : Token} (h : t.isLayout = true) :
    ∀ c ∈ t.chars d, Text.isBlank c = true := by
  intro c hc
  cases t with
  | space | newline =>
    rw [List.mem_singleton.mp hc]
    decide
  | indent levels =>
    rw [List.eq_of_mem_replicate hc]
    decide
  | _ => exact absurd h (by simp [Token.isLayout])

theorem chars_ne_nil {d : Dialect} {t : Token} (hlayout : t.isLayout = false)
    (hregular : t.isRegular = true) : t.chars d ≠ [] := by
  intro hnil
  have hlex := lex_token d hlayout hregular (.inr Parted.nil)
  rw [hnil, List.append_nil, lex_nil, Option.map_some, List.append_nil] at hlex
  have hnone : t.lexemes d = [] := (Option.some.inj hlex).symm
  cases t with
  | space | newline | indent => exact absurd hlayout (by simp [Token.isLayout])
  | qualified name =>
    obtain ⟨schema, name⟩ := name
    cases schema <;> exact absurd hnone (by simp [Token.lexemes])
  | _ => exact absurd hnone (by simp [Token.lexemes])

/-- A token that breaks begins with a character that ends a lexeme. -/
theorem parted_of_isBreak {d : Dialect} {t : Token} (h : t.isBreak = true) (rest : List Char) :
    Parted (t.chars d ++ rest) := by
  cases t with
  | comma | dot | openParen | closeParen | space | newline => exact .cons (by decide) _
  | _ => exact absurd h (by simp [Token.isBreak])

/-- Tokens at which a break is due are parted from what is before them. -/
theorem parted_chars {d : Dialect} {ts : Tokens} (h : BreakNext ts) : Parted (chars d ts) := by
  cases ts with
  | nil => exact .nil
  | cons t rest => exact parted_of_isBreak (h t rfl) (chars d rest)

/-- With its layout as it stands, a statement is read as its tokens. -/
theorem lex_chars (d : Dialect) {ts : Tokens} (h : ts.WellSpelled) :
    lex d (chars d ts) = some (lexemes d ts) := by
  induction ts with
  | nil => exact lex_nil d
  | cons t rest ih =>
    obtain ⟨hregular, hnext, hrest⟩ := h
    show lex d (t.chars d ++ chars d rest) = _
    rw [lexemes_cons]
    cases hlayout : t.isLayout with
    | true => rw [lex_append_of_isBlank (isBlank_of_isLayout hlayout), lexemes_of_isLayout hlayout,
        ih hrest, List.nil_append]
    | false =>
      rw [lex_token d hlayout hregular (hnext.imp_right parted_chars), ih hrest]
      rfl

/-- On a single line a token is parted from the text before it by a separator that is due, or
because it breaks itself. -/
theorem parted_compactFrom {d : Dialect} {pending : Bool} {ts : Tokens}
    (h : pending = true ∨ BreakNext ts) : Parted (compactFrom d true pending ts) := by
  induction ts generalizing pending with
  | nil => exact .nil
  | cons t rest ih =>
    unfold compactFrom
    split
    next hlayout =>
      apply ih
      left
      rcases h with hpending | hbreak
      · rw [hpending, Bool.true_or]
      · -- of the layout tokens those that break are those that separate
        have ht := hbreak t rfl
        cases t with
        | space | newline => exact Bool.or_true pending
        | _ => simp_all [Token.isLayout, Token.isBreak]
    next hlayout =>
      rcases h with hpending | hbreak
      · rw [hpending]
        exact .cons (by decide) _
      · cases pending with
        | true => exact .cons (by decide) _
        | false => exact parted_of_isBreak (hbreak t rfl) _

/-- On a single line too a statement is read as its tokens. -/
theorem lex_compactFrom (d : Dialect) {ts : Tokens} (h : ts.WellSpelled) (started pending : Bool) :
    lex d (compactFrom d started pending ts) = some (lexemes d ts) := by
  induction ts generalizing started pending with
  | nil => exact lex_nil d
  | cons t rest ih =>
    obtain ⟨hregular, hnext, hrest⟩ := h
    rw [lexemes_cons]
    unfold compactFrom
    split
    next hlayout => rw [ih hrest, lexemes_of_isLayout hlayout, List.nil_append]
    next hlayout =>
      rw [Bool.not_eq_true] at hlayout
      have hstarted : (started || !(t.chars d).isEmpty) = true := by
        rw [List.isEmpty_eq_false_iff.mpr (chars_ne_nil hlayout hregular)]
        exact Bool.or_true started
      have hgap : ∀ c ∈ (if pending && started then [' '] else []), Text.isBlank c = true := by
        intro c hc
        split at hc
        next =>
          rw [List.mem_singleton.mp hc]
          decide
        next => exact absurd hc (by simp)
      have hparted : t.isClosed = true ∨ Parted (compactFrom d true false rest) :=
        hnext.imp_right fun hbreak => parted_compactFrom (.inr hbreak)
      simp only
      rw [hstarted, List.append_assoc, lex_append_of_isBlank hgap,
        lex_token d hlayout hregular hparted, ih hrest]
      rfl

/-- Read on one line, well-spelled tokens give their lexemes too. -/
theorem lex_compactChars (d : Dialect) {ts : Tokens} (h : ts.WellSpelled) :
    lex d (compactChars d ts) = some (lexemes d ts) :=
  lex_compactFrom d h false false

end Tokens

end Joinery
