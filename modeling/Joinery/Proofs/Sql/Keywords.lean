import Mathlib.Data.List.Basic
import Joinery.Proofs.Sql.Statements

/-!
# Names and keywords

A word of a statement is a keyword if it spells one, in whatever case, and no name should be such a
word. A delimited name is none. But the generic dialect delimits a name for its characters only, and
leaves a plain name bare even if it spells a keyword (`not_forall_isReserved_part`). That is all that
goes wrong: the words that a reader takes for the keywords of a query are its keywords unless it has
such a name (`keywords_read_iff`).

Names are written by `Dialect.quoteIdentifier`, and queries by `Query.render` and
`Query.renderCompact`.
-/

namespace Joinery

namespace Keyword

theorem mem_all (k : Keyword) : k ∈ all := by
  cases k <;> decide

/-- Different keywords are written differently. -/
theorem text_injective {k j : Keyword} (h : k.text = j.text) : k = j := by
  have hall : ∀ k ∈ all, ∀ j ∈ all, k.text = j.text → k = j := by decide +kernel
  exact hall k k.mem_all j j.mem_all h

theorem upper_text (k : Keyword) : Text.upper k.text.toList = k.text.toList := by
  have hall : ∀ k ∈ all, k.text.toList.all (·.toNat < 97) = true := by decide +kernel
  apply Text.upper_of_forall_lt
  intro c hc
  exact of_decide_eq_true (List.all_eq_true.mp (hall k k.mem_all) c hc)

/-- The keyword that a word spells, in whatever case. -/
def ofWord? (word : List Char) : Option Keyword :=
  all.find? fun k => Text.upper word == k.text.toList

/-- Whether a word is read as a keyword. -/
def isReserved (word : List Char) : Bool :=
  (ofWord? word).isSome

/-- A word is read as the keyword that it is in capitals. -/
theorem ofWord?_eq_some_iff {word : List Char} {k : Keyword} :
    ofWord? word = some k ↔ Text.upper word = k.text.toList := by
  constructor
  · intro h
    have hk := List.find?_some h
    exact beq_iff_eq.mp hk
  · intro h
    have hsome : (ofWord? word).isSome = true :=
      List.find?_isSome.mpr ⟨k, k.mem_all, beq_iff_eq.mpr h⟩
    obtain ⟨j, hj⟩ := Option.isSome_iff_exists.mp hsome
    have hspells := List.find?_some hj
    rw [beq_iff_eq, h, String.toList_inj] at hspells
    rw [hj, text_injective hspells]

theorem ofWord?_text (k : Keyword) : ofWord? k.text.toList = some k :=
  ofWord?_eq_some_iff.mpr k.upper_text

/-- A word without small letters is reserved only if it is written like a keyword. -/
theorem isReserved_eq_false {word : List Char} (hlt : word.all (·.toNat < 97) = true)
    (hne : ∀ k ∈ all, word ≠ k.text.toList) : isReserved word = false := by
  have hupper : Text.upper word = word :=
    Text.upper_of_forall_lt fun c hc => of_decide_eq_true (List.all_eq_true.mp hlt c hc)
  rw [isReserved, Option.isSome_eq_false_iff, Option.isNone_iff_eq_none,
    Option.eq_none_iff_forall_ne_some]
  intro k hk
  rw [ofWord?_eq_some_iff, hupper] at hk
  exact hne k k.mem_all hk

/-- Keywords begin with a letter, so nothing that is delimited is one. -/
theorem isReserved_cons_eq_false {c : Char} (hlt : c.toNat < 97) (halpha : c.isAlpha = false)
    (rest : List Char) : isReserved (c :: rest) = false := by
  have hhead : ∀ k ∈ all, k.text.toList.head?.all Char.isAlpha = true := by decide +kernel
  rw [isReserved, Option.isSome_eq_false_iff, Option.isNone_iff_eq_none,
    Option.eq_none_iff_forall_ne_some]
  intro k hk
  rw [ofWord?_eq_some_iff, Text.upper, List.flatMap_cons, Text.upperChar_of_lt hlt] at hk
  have hletter := hhead k k.mem_all
  rw [← hk] at hletter
  exact absurd (halpha.symm.trans hletter) (by decide)

/-- An identifier is only written as a keyword where it is left bare, and is one. -/
theorem isReserved_identifierChars_iff (d : Dialect) (name : List Char) :
    isReserved (d.identifierChars name) = true ↔
      d = .generic ∧ Text.isPlainIdentifier name = true ∧ isReserved name = true := by
  cases d with
  | generic =>
    show isReserved (Dialect.quotedIfNeeded name) = true ↔ _
    unfold Dialect.quotedIfNeeded
    split
    next hplain => rw [hplain, and_iff_right rfl, and_iff_right rfl]
    next hquoted =>
      have hfree : isReserved (Dialect.doubleQuoted name) = false :=
        isReserved_cons_eq_false (by decide) (by decide) _
      rw [hfree]
      exact iff_of_false (by decide) fun h => hquoted h.2.1
  | postgres | sqlite | mysql | tsql =>
    refine iff_of_false ?_ fun h => nomatch h.1
    rw [Bool.not_eq_true]
    exact isReserved_cons_eq_false (by decide) (by decide) _

end Keyword

/-! ## Names of a statement -/

namespace Token

/-- The names that a token writes. -/
def names : Token → List String
  | identifier name => [name]
  | qualified ⟨none, name⟩ => [name]
  | qualified ⟨some schema, name⟩ => [schema, name]
  | _ => []

/-- The texts that it writes for them. -/
def parts (d : Dialect) (t : Token) : List (List Char) :=
  t.names.map fun name => d.identifierChars name.toList

/-- A token that writes names writes nothing else, but for a dot between them. -/
theorem chars_eq_parts (d : Dialect) {t : Token} (h : t.names ≠ []) :
    t.chars d = List.intercalate ['.'] (t.parts d) := by
  cases t with
  | identifier name => simp [chars, parts, names, List.intercalate]
  | qualified name =>
    obtain ⟨schema, name⟩ := name
    cases schema <;> simp [chars, parts, names, List.intercalate]
  | _ => exact absurd rfl h

/-- The keyword that a token is. -/
def keyword? : Token → Option Keyword
  | keyword k => some k
  | _ => none

/-- Whether numbers and functions are no keywords. -/
def isUnreserved : Token → Bool
  | integer value => !Keyword.isReserved (toString value.toInt).toList
  | function name => !Keyword.isReserved (Text.upper name.toList)
  | _ => true

end Token

/-- A name that a dialect writes as a keyword. -/
def Dialect.Mistakes (d : Dialect) (name : String) : Prop :=
  d = .generic ∧ Text.isPlainIdentifier name.toList = true ∧ Keyword.isReserved name.toList = true

/-- The keyword that a lexeme is to a reader. -/
def Lexeme.keyword? : Lexeme → Option Keyword
  | word text => Keyword.ofWord? text
  | _ => none

/-! ## What is read -/

/-- Where each part is no longer, the whole is no longer. -/
theorem length_flatMap_le {α β : Type} {f g : α → List β} {l : List α}
    (h : ∀ a ∈ l, (g a).length ≤ (f a).length) : (l.flatMap g).length ≤ (l.flatMap f).length := by
  induction l with
  | nil => exact Nat.le_refl _
  | cons a l ih =>
    rw [List.forall_mem_cons] at h
    rw [List.flatMap_cons, List.flatMap_cons, List.length_append, List.length_append]
    exact Nat.add_le_add h.1 (ih h.2)

/-- Lists that are put together from parts are the same only if the parts are, where those of one
are nowhere longer. -/
theorem flatMap_eq_flatMap_iff {α β : Type} {f g : α → List β} {l : List α}
    (h : ∀ a ∈ l, (g a).length ≤ (f a).length) :
    l.flatMap f = l.flatMap g ↔ ∀ a ∈ l, f a = g a := by
  refine ⟨?_, List.flatMap_congr⟩
  induction l with
  | nil => exact fun _ => by simp
  | cons a l ih =>
    rw [List.forall_mem_cons] at h ⊢
    intro heq
    rw [List.flatMap_cons, List.flatMap_cons] at heq
    have hrest := length_flatMap_le h.2
    have hlength := congrArg List.length heq
    rw [List.length_append, List.length_append] at hlength
    have hfirst := h.1
    obtain ⟨ha, hl⟩ := List.append_inj heq (by omega)
    exact ⟨ha, ih h.2 hl⟩

/-- A name is read as a name unless the dialect mistakes it for a keyword. -/
theorem Dialect.keyword?_identifierLexeme_eq_none_iff (d : Dialect) (name : String) :
    (d.identifierLexeme name.toList).keyword? = none ↔ ¬ d.Mistakes name := by
  unfold Dialect.identifierLexeme Mistakes
  split
  next hplain =>
    rw [and_iff_right hplain.1, and_iff_right hplain.2, Bool.not_eq_true, Keyword.isReserved,
      Option.isSome_eq_false_iff, Option.isNone_iff_eq_none]
    rfl
  next hquoted => exact iff_of_true rfl fun h => hquoted ⟨h.1, h.2.1⟩

namespace Token

variable {d : Dialect} {t : Token}

/-- What a reader takes for keywords in what a token writes. -/
def readKeywords (d : Dialect) (t : Token) : List Keyword :=
  (t.lexemes d).filterMap Lexeme.keyword?

/-- A word that is not reserved is no keyword. -/
theorem ofWord?_eq_none_of_not {word : List Char} (h : (!Keyword.isReserved word) = true) :
    (Lexeme.word word).keyword? = none := by
  rw [Bool.not_eq_true', Keyword.isReserved, Option.isSome_eq_false_iff,
    Option.isNone_iff_eq_none] at h
  exact h

/-- A token without names is read as the keyword that it is, if any. -/
theorem readKeywords_of_names_eq_nil (h : t.isUnreserved = true) (hnames : t.names = []) :
    t.readKeywords d = t.keyword?.toList := by
  cases t with
  | keyword k => exact List.filterMap_cons_some (Keyword.ofWord?_text k)
  | integer value => exact List.filterMap_cons_none (ofWord?_eq_none_of_not h)
  | function name => exact List.filterMap_cons_none (ofWord?_eq_none_of_not h)
  | identifier name => exact nomatch hnames
  | qualified name =>
    obtain ⟨schema, name⟩ := name
    cases schema <;> exact nomatch hnames
  | _ => rfl

theorem keyword?_of_names_ne_nil (h : t.names ≠ []) : t.keyword? = none := by
  cases t with
  | keyword k => exact absurd rfl h
  | _ => rfl

/-- Names bring no keywords unless one of them is mistaken. -/
theorem readKeywords_eq_nil_iff (h : t.names ≠ []) :
    t.readKeywords d = [] ↔ ∀ name ∈ t.names, ¬ d.Mistakes name := by
  have hnone (name : String) := d.keyword?_identifierLexeme_eq_none_iff name
  have hdot : (Lexeme.mark .dot).keyword? = none := rfl
  cases t with
  | identifier name => simp [readKeywords, lexemes, names, List.filterMap_eq_nil_iff, hnone]
  | qualified name =>
    obtain ⟨schema, name⟩ := name
    cases schema <;>
      simp [readKeywords, lexemes, names, List.filterMap_eq_nil_iff, hnone, hdot]
  | _ => exact absurd rfl h

/-- A token is read as the keyword that it is, or as none, unless it writes a name as one. -/
theorem readKeywords_eq_iff (h : t.isUnreserved = true) :
    t.readKeywords d = t.keyword?.toList ↔ ∀ name ∈ t.names, ¬ d.Mistakes name := by
  by_cases hnames : t.names = []
  · rw [hnames]
    exact iff_of_true (readKeywords_of_names_eq_nil h hnames) (by simp)
  · rw [keyword?_of_names_ne_nil hnames, ← readKeywords_eq_nil_iff hnames]
    rfl

/-- A token is read as at least the keyword that it is. -/
theorem length_keyword?_le (h : t.isUnreserved = true) :
    t.keyword?.toList.length ≤ (t.readKeywords d).length := by
  by_cases hnames : t.names = []
  · exact Nat.le_of_eq (congrArg _ (readKeywords_of_names_eq_nil h hnames).symm)
  · rw [keyword?_of_names_ne_nil hnames]
    exact Nat.zero_le _

end Token

namespace Tokens

/-- The keywords of a statement. -/
def keywords (ts : Tokens) : List Keyword :=
  ts.flatMap (·.keyword?.toList)

/-- The names of a statement. -/
def names (ts : Tokens) : List String :=
  ts.flatMap Token.names

/-- The keywords that are read are those that were written exactly if no name is mistaken for
one. -/
theorem readKeywords_eq_iff {d : Dialect} {ts : Tokens} (h : ∀ t ∈ ts, t.isUnreserved = true) :
    (lexemes d ts).filterMap Lexeme.keyword? = ts.keywords ↔
      ∀ name ∈ ts.names, ¬ d.Mistakes name := by
  have hread : (lexemes d ts).filterMap Lexeme.keyword? = ts.flatMap (Token.readKeywords d) :=
    List.filterMap_flatMap
  rw [hread, keywords, flatMap_eq_flatMap_iff fun t ht => Token.length_keyword?_le (h t ht)]
  constructor
  · intro hall name hname
    obtain ⟨t, ht, hname⟩ := List.mem_flatMap.mp hname
    exact (Token.readKeywords_eq_iff (h t ht)).mp (hall t ht) name hname
  · intro hall t ht
    exact (Token.readKeywords_eq_iff (h t ht)).mpr fun name hname =>
      hall name (List.mem_flatMap.mpr ⟨t, ht, hname⟩)

end Tokens

/-! ## Queries -/

/-- No number and no function of the statement is a keyword. -/
def Tokens.Unreserved (ts : Tokens) : Prop :=
  ∀ t ∈ ts, t.isUnreserved = true

namespace Tokens.Unreserved

@[simp] theorem nil : Unreserved [] :=
  fun _ ht => nomatch ht

/-- A token joins unreserved ones exactly if it is unreserved itself. -/
@[simp] theorem cons_iff {t : Token} {ts : Tokens} :
    Unreserved (t :: ts) ↔ t.isUnreserved = true ∧ Unreserved ts :=
  List.forall_mem_cons

/-- Two parts are unreserved exactly if each is. -/
@[simp] theorem append_iff {ts us : Tokens} :
    Unreserved (ts ++ us) ↔ Unreserved ts ∧ Unreserved us :=
  List.forall_mem_append

theorem cons {t : Token} {ts : Tokens} (ht : t.isUnreserved = true) (h : Unreserved ts) :
    Unreserved (t :: ts) :=
  cons_iff.mpr ⟨ht, h⟩

theorem append {ts us : Tokens} (hts : Unreserved ts) (hus : Unreserved us) :
    Unreserved (ts ++ us) :=
  append_iff.mpr ⟨hts, hus⟩

theorem flatMap {α : Type} {write : α → Tokens} (h : ∀ x, Unreserved (write x)) (xs : List α) :
    Unreserved (xs.flatMap write) := by
  intro t ht
  obtain ⟨x, _, ht⟩ := List.mem_flatMap.mp ht
  exact h x t ht

end Tokens.Unreserved

open Tokens

theorem Token.isUnreserved_one : (Token.integer 1).isUnreserved = true := by
  have hone : Keyword.isReserved ['1'] = false :=
    Keyword.isReserved_cons_eq_false (by decide) (by decide) []
  show (!Keyword.isReserved (toString (1 : Int64).toInt).toList) = true
  rw [show (toString (1 : Int64).toInt).toList = ['1'] by decide +kernel, hone]
  rfl

theorem Token.isUnreserved_call : (Token.function "CONCAT").isUnreserved = true := by
  rw [isUnreserved, Expr.upper_call,
    Keyword.isReserved_eq_false (by decide +kernel) (by decide +kernel)]
  rfl

mutual
/-- An expression has no word that could be mistaken, names apart. -/
theorem Expr.unreserved_tokens (d : Dialect) : (e : Expr) → Unreserved (e.tokens d)
  | .column none name => by simp [Expr.tokens, Token.isUnreserved]
  | .column (some table) name => by simp [Expr.tokens, Token.isUnreserved]
  | .string value => by simp [Expr.tokens, Token.isUnreserved]
  | .binary op left right => by
    have hleft := left.unreserved_tokens d
    have hright := right.unreserved_tokens d
    rw [Expr.tokens]
    split
    next =>
      have hopen : Unreserved [.function "CONCAT", .openParen] :=
        .cons Token.isUnreserved_call (.cons rfl .nil)
      have hcomma : Unreserved [.comma, .space] := .cons rfl (.cons rfl .nil)
      exact .append (.append (.append (.append hopen hleft) hcomma) hright) (.cons rfl .nil)
    next => cases op <;> simp [hleft, hright, BinaryOp.token, Token.isUnreserved]
  | .isIn _ [] negated => by
    have hone := Token.isUnreserved_one
    rw [Expr.tokens, Expr.emptyMembership]
    refine .cons hone (.cons rfl (.cons ?_ (.cons rfl (.cons hone .nil))))
    cases negated <;> rfl
  | .isIn subject (first :: others) negated => by
    have hsubject := subject.unreserved_tokens d
    have hfirst := first.unreserved_tokens d
    have hothers := Expr.unreserved_tokensAfterComma d others
    rw [Expr.tokens]
    cases negated <;> simp [hsubject, hfirst, hothers, Token.isUnreserved]
  | .paren inner => by
    have hinner := inner.unreserved_tokens d
    simp [Expr.tokens, hinner, Token.isUnreserved]

theorem Expr.unreserved_tokensAfterComma (d : Dialect) :
    (es : List Expr) → Unreserved (Expr.tokensAfterComma d es)
  | [] => .nil
  | e :: es => by
    have he := e.unreserved_tokens d
    have hes := Expr.unreserved_tokensAfterComma d es
    simp [Expr.tokensAfterComma, he, hes, Token.isUnreserved]
end

theorem TableRef.unreserved_tokens (t : TableRef) : Unreserved t.tokens := by
  obtain ⟨name, tableAlias⟩ := t
  cases tableAlias <;> simp [tokens, Token.isUnreserved]

theorem SelectItem.unreserved_tokens (d : Dialect) (item : SelectItem) :
    Unreserved (item.tokens d) := by
  obtain ⟨expr, output⟩ := item
  cases output <;> simp [tokens, expr.unreserved_tokens d, Token.isUnreserved]

theorem Join.unreserved_tokens (d : Dialect) (j : Join) : Unreserved (j.tokens d) := by
  obtain ⟨kind, table, condition⟩ := j
  have hkind : Unreserved (kind.keywords.flatMap fun k => [Token.keyword k, .space]) :=
    .flatMap (fun k => by simp [Token.isUnreserved]) _
  cases condition with
  | none => simp [tokens, hkind, table.unreserved_tokens, Token.isUnreserved]
  | some e => simp [tokens, hkind, table.unreserved_tokens, e.unreserved_tokens d, Token.isUnreserved]

/-- A query has no word that could be mistaken for a keyword, its names apart. -/
theorem Query.unreserved_tokens (d : Dialect) (q : Query) : Unreserved (q.tokens d) := by
  obtain ⟨select, source, joins, filter⟩ := q
  have hselect : Unreserved (selectTokens d select) := by
    cases select with
    | nil => exact .nil
    | cons item rest =>
      have hrest : Unreserved (rest.flatMap fun next =>
          [Token.comma, .newline, .indent 1] ++ next.tokens d) :=
        .flatMap (fun next => by simp [next.unreserved_tokens d, Token.isUnreserved]) _
      exact .append (by simp [item.unreserved_tokens d, Token.isUnreserved]) hrest
  have hjoins : Unreserved (joins.flatMap fun j => .newline :: j.tokens d) :=
    .flatMap (fun j => by simp [j.unreserved_tokens d, Token.isUnreserved]) _
  refine .append (.append (.append (.cons rfl hselect) ?_) hjoins) ?_
  · cases source with
    | none => exact .nil
    | some t => simp [t.unreserved_tokens, Token.isUnreserved]
  · cases filter with
    | none => exact .nil
    | some e => simp [e.unreserved_tokens d, Token.isUnreserved]

/-! ## What becomes of names -/

/-- What a token writes for a name spells a keyword only in the generic dialect, and there exactly
if the name is plain and spells it. So the keywords that are read in a query, in either layout, are
those of the query unless it has such a name. -/
theorem keywords_read_iff (d : Dialect) :
    (∀ t : Token, t.names ≠ [] → t.chars d = List.intercalate ['.'] (t.parts d)) ∧
    (∀ name : String, Keyword.isReserved (d.identifierChars name.toList) = true ↔
      d.Mistakes name) ∧
    ∀ q : Query, ∃ ls, lex d (q.render d).toList = some ls ∧
      lex d (q.renderCompact d).toList = some ls ∧
      (ls.filterMap Lexeme.keyword? = (q.tokens d).keywords ↔
        ∀ name ∈ (q.tokens d).names, ¬ d.Mistakes name) := by
  refine ⟨fun t => t.chars_eq_parts d, fun name => Keyword.isReserved_identifierChars_iff d _, ?_⟩
  intro q
  have hspelled := q.wellSpelled_tokens d
  refine ⟨lexemes d (q.tokens d), ?_, ?_, readKeywords_eq_iff (q.unreserved_tokens d)⟩
  · rw [Query.render, Tokens.render, String.toList_ofList, lex_chars d hspelled]
  · rw [Query.renderCompact, Tokens.renderCompact, String.toList_ofList,
      lex_compactChars d hspelled]

theorem not_forall_isReserved_part :
    ¬ ∀ (d : Dialect) (t : Token), ∀ part ∈ t.parts d, Keyword.isReserved part = false := by
  intro hall
  have hfrom := hall .generic (.identifier "from") _ (List.mem_singleton_self _)
  have hmistakes : Dialect.generic.Mistakes "from" := ⟨rfl, by decide +kernel, by decide +kernel⟩
  rw [(Keyword.isReserved_identifierChars_iff _ _).mpr hmistakes] at hfrom
  exact nomatch hfrom

end Joinery
