import Mathlib.Data.List.Basic
import Joinery.Proofs.Sql.Statements

/-!
# One statement in two layouts

The text of a query over several lines and its text on one line are cut into the same lexemes,
and these are the texts of the query's tokens, without those that only lay it out: no token runs
on into the next, and no name or literal ends early or goes on behind its delimiter
(`Query.lex_layouts`).

That lexemes are texts is a property of the lexer. Each lexeme that it finds is written as it
stood (`eq_chars_append_of_lexeme?`), and so it leaves out nothing of a text but the white space
around lexemes (`cutInto_of_lex`).

The two texts are those of `Query.render` and `Query.renderCompact`.
-/

namespace Joinery

/-! ## Lexemes as texts -/

/-- The text of a lexeme. -/
def Lexeme.chars (d : Dialect) : Lexeme → List Char
  | word text => text
  | name text => Text.delimited d.delimiters.1 d.delimiters.2 text
  | literal true text => Dialect.nationalQuoted text
  | literal false text => Dialect.singleQuoted text
  | mark m => m.chars d

/-- The text consists of the lexemes, in order, and of white space around them. -/
inductive CutInto (d : Dialect) : List Char → List Lexeme → Prop
  | nil : CutInto d [] []
  | blank {c : Char} {rest : List Char} {ls : List Lexeme} :
    Text.isBlank c = true → CutInto d rest ls → CutInto d (c :: rest) ls
  | lexeme {rest : List Char} {ls : List Lexeme} (l : Lexeme) :
    CutInto d rest ls → CutInto d (l.chars d ++ rest) (l :: ls)

/-- What is read up to a closing quote is written with that quote doubled. -/
theorem Text.eq_of_upToClose {close : Char} {written text after : List Char}
    (h : upToClose close written = some (text, after)) :
    written = double close text ++ close :: after := by
  fun_induction upToClose close written generalizing text after with
  | case1 => exact nomatch h
  | case2 =>
    obtain ⟨rfl, rfl⟩ := Prod.mk.inj (Option.some.inj h)
    rfl
  | case3 => exact nomatch h
  | case4 rest ih =>
    obtain ⟨inner, hinner, rfl⟩ := exists_of_map_read h
    rw [ih hinner, double, if_pos rfl]
    rfl
  | case5 d rest hd =>
    obtain ⟨rfl, rfl⟩ := Prod.mk.inj (Option.some.inj h)
    rfl
  | case6 c d rest hc ih =>
    obtain ⟨inner, hinner, rfl⟩ := exists_of_map_read h
    rw [ih hinner, double, if_neg hc]
    rfl

/-- What is read between quotes is written as the text between its delimiters. -/
theorem Text.eq_delimited_of_upToClose {opening close : Char} {written text after : List Char}
    (h : upToClose close written = some (text, after)) :
    opening :: written = delimited opening close text ++ after := by
  rw [eq_of_upToClose h, delimited_append]

theorem eq_chars_append_of_mark? {d : Dialect} {text after : List Char} {l : Lexeme}
    (h : mark? d text = some (l, after)) : text = l.chars d ++ after := by
  obtain ⟨m, _, hm⟩ := List.exists_of_findSome?_eq_some h
  obtain ⟨rest, hrest, hread⟩ := Option.map_eq_some_iff.mp hm
  obtain ⟨rfl, rfl⟩ := Prod.mk.inj hread
  exact (List.append_eq_of_isPrefixOf?_eq_some hrest).symm

/-- A lexeme is the text that it was read from. -/
theorem eq_chars_append_of_lexeme? {d : Dialect} {text after : List Char} {l : Lexeme}
    (h : lexeme? d text = some (l, after)) : text = l.chars d ++ after := by
  cases text with
  | nil => exact absurd h (by simp [lexeme?])
  | cons c rest =>
    rw [lexeme?] at h
    split at h
    next hname =>
      obtain ⟨inner, hinner, rfl⟩ := Text.exists_of_map_read h
      rw [hname]
      exact Text.eq_delimited_of_upToClose hinner
    next =>
      split at h
      next hquote =>
        obtain ⟨inner, hinner, rfl⟩ := Text.exists_of_map_read h
        rw [hquote]
        exact Text.eq_delimited_of_upToClose hinner
      next =>
        split at h
        next hnational =>
          obtain ⟨inner, hinner, rfl⟩ := Text.exists_of_map_read h
          obtain ⟨_, rfl, hhead⟩ := hnational
          cases rest with
          | nil => exact absurd hhead (by simp)
          | cons quote rest =>
            rw [Option.some.inj hhead]
            exact congrArg ('N' :: ·) (Text.eq_delimited_of_upToClose hinner)
        next =>
          split at h
          next =>
            obtain ⟨rfl, rfl⟩ := Prod.mk.inj (Option.some.inj h)
            rw [Lexeme.chars, List.cons_append, List.takeWhile_append_dropWhile]
          next => exact eq_chars_append_of_mark? h

/-- The lexer leaves out nothing but white space. -/
theorem cutInto_of_lex {d : Dialect} {text : List Char} {ls : List Lexeme}
    (h : lex d text = some ls) : CutInto d text ls := by
  fun_induction lex d text generalizing ls with
  | case1 =>
    rw [← Option.some.inj h]
    exact .nil
  | case2 c rest hblank ih => exact .blank hblank (ih h)
  | case3 => exact nomatch h
  | case4 c rest _ l after hlexeme _ ih =>
    obtain ⟨others, hothers, rfl⟩ := Option.map_eq_some_iff.mp h
    rw [eq_chars_append_of_lexeme? hlexeme]
    exact .lexeme l (ih hothers)
  | case5 => exact nomatch h

/-! ## Tokens as texts -/

/-- The texts that a token puts into a statement: layout none, a qualified name two with a dot
between them. -/
def Token.texts (d : Dialect) : Token → List (List Char)
  | qualified ⟨some schema, name⟩ =>
    [d.identifierChars schema.toList, ['.'], d.identifierChars name.toList]
  | t => if t.isLayout then [] else [t.chars d]

/-- An identifier has the characters that its name is written with. -/
theorem Dialect.chars_identifierLexeme (d : Dialect) (name : List Char) :
    (d.identifierLexeme name).chars d = d.identifierChars name := by
  unfold identifierLexeme
  split
  next h =>
    rw [h.1]
    exact (if_pos h.2).symm
  next h =>
    cases d with
    | generic => exact (if_neg fun hplain => h ⟨rfl, hplain⟩).symm
    | postgres | mysql | sqlite | tsql => rfl

/-- A literal has the characters that its text is written with. -/
theorem Dialect.chars_literal (d : Dialect) (text : List Char) :
    (Lexeme.literal (d.isNational text) text).chars d = d.stringChars text := by
  unfold isNational stringChars
  split
  next h =>
    rw [decide_eq_true h]
    rfl
  next h =>
    rw [decide_eq_false h]
    rfl

/-- The lexemes of a token have its characters between the blanks. -/
theorem Token.map_chars_lexemes (d : Dialect) (t : Token) :
    (t.lexemes d).map (Lexeme.chars d) = t.texts d := by
  cases t with
  | identifier name => exact congrArg ([·]) (d.chars_identifierLexeme name.toList)
  | string value => exact congrArg ([·]) (d.chars_literal value.toList)
  | qualified name =>
    obtain ⟨schema, name⟩ := name
    cases schema with
    | none => exact congrArg ([·]) (d.chars_identifierLexeme name.toList)
    | some schema =>
      show [(d.identifierLexeme schema.toList).chars d, ['.'],
        (d.identifierLexeme name.toList).chars d] = _
      rw [d.chars_identifierLexeme, d.chars_identifierLexeme]
      rfl
  | _ => rfl

/-- The lexemes of tokens have their characters between the blanks. -/
theorem Tokens.map_chars_lexemes (d : Dialect) (ts : Tokens) :
    (lexemes d ts).map (Lexeme.chars d) = ts.flatMap (Token.texts d) := by
  rw [lexemes, List.map_flatMap]
  exact List.flatMap_congr fun t _ => t.map_chars_lexemes d

/-- Whatever a query holds, the lexer of the dialect cuts both of its layouts into the same lexemes,
those of its tokens. They are the texts of the tokens, and there is nothing in either layout but
them and white space. -/
theorem Query.lex_layouts (d : Dialect) (q : Query) :
    lex d (q.render d).toList = some (Tokens.lexemes d (q.tokens d)) ∧
    lex d (q.renderCompact d).toList = some (Tokens.lexemes d (q.tokens d)) ∧
    (Tokens.lexemes d (q.tokens d)).map (Lexeme.chars d) =
      (q.tokens d).flatMap (Token.texts d) ∧
    CutInto d (q.render d).toList (Tokens.lexemes d (q.tokens d)) ∧
    CutInto d (q.renderCompact d).toList (Tokens.lexemes d (q.tokens d)) := by
  have hpretty : lex d (q.render d).toList = some (Tokens.lexemes d (q.tokens d)) := by
    rw [render, Tokens.render, String.toList_ofList]
    exact Tokens.lex_chars d (q.wellSpelled_tokens d)
  have hcompact : lex d (q.renderCompact d).toList = some (Tokens.lexemes d (q.tokens d)) := by
    rw [renderCompact, Tokens.renderCompact, String.toList_ofList]
    exact Tokens.lex_compactChars d (q.wellSpelled_tokens d)
  exact ⟨hpretty, hcompact, Tokens.map_chars_lexemes d _, cutInto_of_lex hpretty,
    cutInto_of_lex hcompact⟩

end Joinery
