import Joinery.Proofs.Sql.Reading
import Joinery.Sql.Query

/-!
# Reading queries

The grammar of the queries that are read back, over lexemes:

    query ::= SELECT item {"," item} FROM table {join} [WHERE expr]
    item  ::= expr AS identifier
    table ::= identifier ["." identifier] identifier
    join  ::= kind JOIN table [ON expr]

Whatever is selected and every table has a name of its own here, and so an identifier stands
only where the grammar calls for one: a table called `ON` or a column called `FROM` is read as
such.

`Query.read?` reads a text by this grammar. `read?_render` and `read?_renderCompact` say that it
finds every query again that has the form, as `Readable` says. In a query the tokens keep apart
(`wellSpelled_tokens`), so that its text gives its lexemes; and each part of the grammar reads
its own lexemes, in front of what can follow them.

The text is that of `Query.render` or `Query.renderCompact`.
-/

namespace Joinery

open Tokens

/-! ## Spelling -/

/-- Parts that each leave room for what follows do so together. -/
theorem Tokens.follows_flatMap {α : Type} {write : α → Tokens}
    (h : ∀ x rest, Follows rest → Follows (write x ++ rest)) {rest : Tokens}
    (hrest : Follows rest) (xs : List α) : Follows (xs.flatMap write ++ rest) := by
  induction xs with
  | nil => exact hrest
  | cons x xs ih =>
    rw [List.flatMap_cons, List.append_assoc]
    exact h x _ ih

/-- A table is well-spelled before anything that may follow. -/
theorem TableRef.wellSpelled_append {rest : Tokens} (h : Follows rest) (t : TableRef) :
    WellSpelled (t.tokens ++ rest) := by
  obtain ⟨name, tableAlias⟩ := t
  cases tableAlias with
  | none => exact .cons rfl h
  | some tableAlias => exact .cons rfl (.space rfl h)

/-- A select item is well-spelled before anything that may follow. -/
theorem SelectItem.wellSpelled_append (d : Dialect) {rest : Tokens} (h : Follows rest)
    (item : SelectItem) : WellSpelled (item.tokens d ++ rest) := by
  obtain ⟨expr, output⟩ := item
  rw [tokens, List.append_assoc]
  cases output with
  | none => exact expr.wellSpelled_append d h
  | some output => exact expr.wellSpelled_append d (.space rfl (.space rfl h))

/-- A join without a condition is well-spelled before anything that may follow. -/
theorem wellSpelled_joined {rest : Tokens} (h : Follows rest) (kind : JoinKind) (t : TableRef) :
    WellSpelled ((kind.keywords.flatMap fun k => [Token.keyword k, .space]) ++
      ([Token.keyword .JOIN, .space] ++ (t.tokens ++ rest))) := by
  have hkeyword (k : Keyword) {ts : Tokens} (hts : WellSpelled ts) :
      WellSpelled (.keyword k :: .space :: ts) :=
    .cons rfl (.cons rfl hts)
  have hjoin := hkeyword .JOIN (t.wellSpelled_append h)
  cases kind with
  | plain => exact hjoin
  | natural | left | inner | right => exact hkeyword _ hjoin
  | leftOuter => exact hkeyword _ (hkeyword _ hjoin)

/-- A join is well-spelled before anything that may follow. -/
theorem Join.wellSpelled_append (d : Dialect) {rest : Tokens} (h : Follows rest) (j : Join) :
    WellSpelled (j.tokens d ++ rest) := by
  obtain ⟨kind, table, condition⟩ := j
  rw [tokens]
  simp only [List.append_assoc]
  apply wellSpelled_joined
  cases condition with
  | none => exact h
  | some e => exact .space rfl (.cons rfl (e.wellSpelled_append d h))

namespace Query

/-- A select list may be followed by anything that may follow. -/
theorem follows_selectTokens (d : Dialect) {rest : Tokens} (h : Follows rest)
    (items : List SelectItem) : Follows (selectTokens d items ++ rest) := by
  cases items with
  | nil => exact h
  | cons item items =>
    have hothers : Follows ((items.flatMap fun next =>
        [Token.comma, .newline, .indent 1] ++ next.tokens d) ++ rest) := by
      refine follows_flatMap (fun next rest hrest => ?_) h items
      rw [List.append_assoc]
      exact .cons rfl (.break rfl ⟨rfl, .inl rfl, next.wellSpelled_append d hrest⟩)
    rw [selectTokens, List.append_assoc, List.append_assoc]
    exact .cons rfl ⟨rfl, .inl rfl, item.wellSpelled_append d hothers⟩

/-- The tokens of a query keep apart, whatever it holds. -/
theorem wellSpelled_tokens (d : Dialect) (q : Query) : WellSpelled (q.tokens d) := by
  obtain ⟨select, source, joins, filter⟩ := q
  have hjoins {rest : Tokens} (hrest : Follows rest) :
      Follows ((joins.flatMap fun j => .newline :: j.tokens d) ++ rest) :=
    follows_flatMap (fun j _ hnext => .cons rfl (j.wellSpelled_append d hnext)) hrest joins
  have hfrom {rest : Tokens} (hrest : Follows rest) (t : TableRef) :
      Follows ([Token.newline, .keyword .FROM, .space] ++ t.tokens ++ rest) :=
    .cons rfl (.cons rfl (.cons rfl (t.wellSpelled_append hrest)))
  have hwhere (e : Expr) : Follows ([Token.newline, .keyword .WHERE, .space] ++ e.tokens d) := by
    have he := e.wellSpelled_append d .nil
    rw [List.append_nil] at he
    exact .cons rfl (.cons rfl (.cons rfl he))
  rw [tokens, List.append_assoc, List.append_assoc, List.cons_append]
  refine .cons rfl (follows_selectTokens d ?_ select)
  cases source with
  | none =>
    apply hjoins
    cases filter with
    | none => exact .nil
    | some e => exact hwhere e
  | some t =>
    refine hfrom (hjoins ?_) t
    cases filter with
    | none => exact .nil
    | some e => exact hwhere e

end Query

/-! ## The grammar -/

/-- Reads something from the front of a list of lexemes, or fails. -/
abbrev LexemeReader :=
  StateT (List Lexeme) Option

namespace LexemeReader

variable {α β : Type}

def lexeme (expected : Lexeme) : LexemeReader Unit
  | [] => none
  | l :: rest => if l = expected then some ((), rest) else none

def keyword (k : Keyword) : LexemeReader Unit :=
  lexeme (.ofKeyword k)

def identifier : LexemeReader String
  | [] => none
  | l :: rest => l.identifier?.map (·, rest)

/-- An expression, as far as it goes. -/
def expr (d : Dialect) : LexemeReader Expr :=
  ExprReader.read d

/-- What `p` reads, or nothing. -/
def perhaps (p : LexemeReader α) : LexemeReader (Option α) := fun lexemes =>
  match p lexemes with
  | none => some (none, lexemes)
  | some (x, rest) => some (some x, rest)

/-- As many in a row as there are of what `p` reads. -/
def many (p : LexemeReader α) : LexemeReader (List α) := fun lexemes =>
  match p lexemes with
  | none => some ([], lexemes)
  | some (x, rest) =>
    if _h : rest.length < lexemes.length then
      (many p rest).map fun (xs, rest) => (x :: xs, rest)
    else none
termination_by lexemes => lexemes.length

def table : LexemeReader TableRef := do
  let first ← identifier
  let second ← perhaps do
    lexeme (.mark .dot)
    identifier
  let tableAlias ← identifier
  return ⟨match second with
    | none => ⟨none, first⟩
    | some name => ⟨some first, name⟩, some tableAlias⟩

/-- An expression with its output name. -/
def item (d : Dialect) : LexemeReader SelectItem := do
  let e ← expr d
  keyword .AS
  let output ← identifier
  return ⟨e, some output⟩

/-- The kind of a join, up to the keyword that all joins have. -/
def joinKind : LexemeReader JoinKind := fun lexemes =>
  JoinKind.all.findSome? fun kind =>
    (List.isPrefixOf? ((kind.keywords ++ [Keyword.JOIN]).map Lexeme.ofKeyword) lexemes).map (kind, ·)

/-- A keyword and the expression after it. -/
def clause (d : Dialect) (k : Keyword) : LexemeReader Expr := do
  keyword k
  expr d

/-- A join with its condition, if it has one. -/
def join (d : Dialect) : LexemeReader Join := do
  let kind ← joinKind
  let t ← table
  let condition ← perhaps (clause d .ON)
  return ⟨kind, t, condition⟩

def query (d : Dialect) : LexemeReader Query := do
  keyword .SELECT
  let first ← item d
  let others ← many do
    lexeme (.mark .comma)
    item d
  keyword .FROM
  let source ← table
  let joins ← many (join d)
  let filter ← perhaps (clause d .WHERE)
  return { select := first :: others, source := some source, joins, filter }

/-! ## Reading what was written -/

theorem bind_eq {p : LexemeReader α} {f : α → LexemeReader β} {lexemes rest : List Lexeme} {x : α}
    (h : p lexemes = some (x, rest)) : (p >>= f) lexemes = f x rest := by
  show (p lexemes).bind _ = _
  rw [h]
  rfl

theorem bind_eq_none {p : LexemeReader α} {f : α → LexemeReader β} {lexemes : List Lexeme}
    (h : p lexemes = none) : (p >>= f) lexemes = none := by
  show (p lexemes).bind _ = _
  rw [h]
  rfl

theorem lexeme_cons (l : Lexeme) (rest : List Lexeme) : lexeme l (l :: rest) = some ((), rest) := by
  rw [lexeme, if_pos rfl]

theorem lexeme_eq_none {l : Lexeme} {rest : List Lexeme} (h : ∀ m ∈ rest.head?, m ≠ l) :
    lexeme l rest = none := by
  cases rest with
  | nil => rfl
  | cons m rest => rw [lexeme, if_neg (h m rfl)]

theorem identifier_cons (d : Dialect) (name : String) (rest : List Lexeme) :
    identifier (d.identifierLexeme name.toList :: rest) = some (name, rest) := by
  rw [identifier, d.identifier?_identifierLexeme]
  rfl

theorem perhaps_eq_some {p : LexemeReader α} {lexemes rest : List Lexeme} {x : α}
    (h : p lexemes = some (x, rest)) : perhaps p lexemes = some (some x, rest) := by
  rw [perhaps, h]

/-- What cannot be read is not there, and nothing is lost. -/
theorem perhaps_eq_none {p : LexemeReader α} {lexemes : List Lexeme} (h : p lexemes = none) :
    perhaps p lexemes = some (none, lexemes) := by
  rw [perhaps, h]

/-- A list is read back item by item, if each is read in front of anything that an item can stand
before, and no more is read in front of what follows the list. -/
theorem many_flatMap {p : LexemeReader α} {write : α → List Lexeme} (Before : List Lexeme → Prop)
    {xs : List α} {rest : List Lexeme}
    (hread : ∀ x ∈ xs, ∀ rest, Before rest → p (write x ++ rest) = some (x, rest))
    (hbefore : ∀ x rest, Before (write x ++ rest)) (hne : ∀ x, write x ≠ [])
    (hrest : Before rest) (hend : p rest = none) :
    many p (xs.flatMap write ++ rest) = some (xs, rest) := by
  induction xs with
  | nil =>
    show many p rest = _
    rw [many, hend]
  | cons x xs ih =>
    have hnext : Before (xs.flatMap write ++ rest) := by
      cases xs with
      | nil => exact hrest
      | cons y ys =>
        rw [List.flatMap_cons, List.append_assoc]
        exact hbefore y _
    have hlength : (xs.flatMap write ++ rest).length <
        (write x ++ (xs.flatMap write ++ rest)).length := by
      have hpos := List.length_pos_iff.mpr (hne x)
      have happend : (write x ++ (xs.flatMap write ++ rest)).length =
          (write x).length + (xs.flatMap write ++ rest).length := List.length_append
      omega
    rw [List.flatMap_cons, List.append_assoc, many, hread x (List.mem_cons_self ..) _ hnext]
    simp only
    rw [dif_pos hlength, ih fun y hy => hread y (List.mem_cons_of_mem _ hy)]
    rfl

end LexemeReader

/-! ## Queries that can be read back -/

/-- Only keywords of operators go on with an expression. -/
theorem Lexeme.goesOn_ofKeyword {d : Dialect} {k : Keyword}
    (h : k ∉ [Keyword.AND, .LIKE, .NOT, .IN]) : (ofKeyword k).goesOn d = false := by
  cases k <;> first | rfl | exact absurd h (by decide)

theorem Dialect.identifierLexeme_ne_mark (d : Dialect) (name : List Char) (m : Mark) :
    d.identifierLexeme name ≠ .mark m := by
  unfold Dialect.identifierLexeme
  split <;> simp

namespace LexemeReader

variable {d : Dialect}

theorem table_lexemes {t : TableRef} (h : t.tableAlias.isSome = true) (rest : List Lexeme) :
    table (Tokens.lexemes d t.tokens ++ rest) = some (t, rest) := by
  obtain ⟨⟨schema, name⟩, tableAlias⟩ := t
  obtain ⟨tableAlias, rfl⟩ := Option.isSome_iff_exists.mp h
  unfold table
  cases schema with
  | none =>
    have hlexemes : Tokens.lexemes d (TableRef.mk ⟨none, name⟩ (some tableAlias)).tokens ++ rest =
        d.identifierLexeme name.toList :: d.identifierLexeme tableAlias.toList :: rest := rfl
    have hdot : lexeme (.mark .dot) (d.identifierLexeme tableAlias.toList :: rest) = none := by
      apply lexeme_eq_none
      intro m hm
      rw [← Option.some.inj hm]
      exact d.identifierLexeme_ne_mark _ _
    rw [hlexemes, bind_eq (identifier_cons d name _), bind_eq (perhaps_eq_none (bind_eq_none hdot)),
      bind_eq (identifier_cons d tableAlias _)]
    rfl
  | some schema =>
    have hlexemes : Tokens.lexemes d (TableRef.mk ⟨some schema, name⟩ (some tableAlias)).tokens ++
        rest = d.identifierLexeme schema.toList :: .mark .dot :: d.identifierLexeme name.toList ::
          d.identifierLexeme tableAlias.toList :: rest := rfl
    have hname : (lexeme (.mark .dot) >>= fun _ => identifier)
        (.mark .dot :: d.identifierLexeme name.toList :: d.identifierLexeme tableAlias.toList ::
          rest) = some (name, d.identifierLexeme tableAlias.toList :: rest) := by
      rw [bind_eq (lexeme_cons _ _), identifier_cons]
    rw [hlexemes, bind_eq (identifier_cons d schema _), bind_eq (perhaps_eq_some hname),
      bind_eq (identifier_cons d tableAlias _)]
    rfl

theorem item_lexemes {item : SelectItem} (hgrouped : item.expr.Grouped d)
    (hnamed : item.output.isSome = true) (rest : List Lexeme) :
    LexemeReader.item d (Tokens.lexemes d (item.tokens d) ++ rest) = some (item, rest) := by
  obtain ⟨e, output⟩ := item
  obtain ⟨output, rfl⟩ := Option.isSome_iff_exists.mp hnamed
  have hlexemes : Tokens.lexemes d ((SelectItem.mk e (some output)).tokens d) ++ rest =
      e.lexemes d ++ .ofKeyword .AS :: d.identifierLexeme output.toList :: rest := by
    rw [SelectItem.tokens, Tokens.lexemes_append, List.append_assoc]
    rfl
  have hexpr : expr d (e.lexemes d ++ .ofKeyword .AS :: d.identifierLexeme output.toList :: rest) =
      some (e, .ofKeyword .AS :: d.identifierLexeme output.toList :: rest) := by
    refine ExprReader.read_lexemes hgrouped fun l hl => ?_
    rw [← Option.some.inj hl]
    exact Lexeme.goesOn_ofKeyword (by decide)
  unfold LexemeReader.item
  rw [hlexemes, bind_eq hexpr, keyword, bind_eq (lexeme_cons _ _),
    bind_eq (identifier_cons d output _)]
  rfl

/-- The keywords of a join are read as its kind. -/
theorem joinKind_keywords (kind : JoinKind) (rest : List Lexeme) :
    joinKind ((kind.keywords ++ [Keyword.JOIN]).map Lexeme.ofKeyword ++ rest) = some (kind, rest) := by
  cases kind <;> rfl

/-- What ends a clause: nothing that an expression goes on with. -/
def EndsClause (d : Dialect) (rest : List Lexeme) : Prop :=
  ∀ l ∈ rest.head?, l.goesOn d = false ∧ l ≠ .ofKeyword .ON

theorem endsClause_ofKeyword {k : Keyword} (h : k ∉ [Keyword.AND, .LIKE, .NOT, .IN, .ON])
    (rest : List Lexeme) : EndsClause d (.ofKeyword k :: rest) := by
  intro l hl
  rw [← Option.some.inj hl]
  refine ⟨Lexeme.goesOn_ofKeyword (by simp_all), ?_⟩
  cases k <;> first | decide | exact absurd h (by decide)

/-- A clause is read back, up to where it ends. -/
theorem clause_lexemes {e : Expr} (h : e.Legible d) (k : Keyword) {rest : List Lexeme}
    (hrest : EndsClause d rest) :
    clause d k (.ofKeyword k :: (e.lexemes d ++ rest)) = some (e, rest) := by
  unfold clause
  rw [keyword, bind_eq (lexeme_cons _ _)]
  exact ExprReader.read_lexemes_of_legible h fun l hl => (hrest l hl).1

/-- A join is read back, up to where it ends. -/
theorem join_lexemes {j : Join} (hnamed : j.table.tableAlias.isSome = true)
    (hgrouped : ∀ e ∈ j.condition, e.Grouped d) {rest : List Lexeme} (hrest : EndsClause d rest) :
    LexemeReader.join d (Tokens.lexemes d (j.tokens d) ++ rest) = some (j, rest) := by
  obtain ⟨kind, t, condition⟩ := j
  have hkeywords : Tokens.lexemes d ((kind.keywords.flatMap fun k => [Token.keyword k, .space]) ++
      [Token.keyword .JOIN, .space]) = (kind.keywords ++ [Keyword.JOIN]).map Lexeme.ofKeyword := by
    cases kind <;> rfl
  unfold LexemeReader.join
  rw [Join.tokens, Tokens.lexemes_append, Tokens.lexemes_append, hkeywords, List.append_assoc,
    List.append_assoc, bind_eq (joinKind_keywords kind _), bind_eq (table_lexemes hnamed _)]
  cases condition with
  | none =>
    have hon : clause d .ON rest = none :=
      bind_eq_none (lexeme_eq_none fun l hl => (hrest l hl).2)
    show (perhaps (clause d .ON) >>= _) rest = _
    rw [bind_eq (perhaps_eq_none hon)]
    rfl
  | some e =>
    have hcondition := clause_lexemes (hgrouped e rfl).legible.1 .ON hrest
    show (perhaps (clause d .ON) >>= _) (.ofKeyword .ON :: (e.lexemes d ++ rest)) = _
    rw [bind_eq (perhaps_eq_some hcondition)]
    rfl

end LexemeReader

namespace Query

/-- The query has the form of those that are read back: it selects something from some table, all
of that has names, and expressions group their operands. -/
structure Readable (d : Dialect) (q : Query) : Prop where
  nonempty : q.select ≠ []
  items : ∀ item ∈ q.select, item.expr.Grouped d ∧ item.output.isSome = true
  source : ∃ t, q.source = some t ∧ t.tableAlias.isSome = true
  joins : ∀ j ∈ q.joins, j.table.tableAlias.isSome = true ∧ ∀ e ∈ j.condition, e.Grouped d
  filter : ∀ e ∈ q.filter, e.Grouped d

end Query

namespace LexemeReader

variable {d : Dialect}

/-- The select items after the first are read back. -/
theorem others_lexemes {items : List SelectItem}
    (h : ∀ item ∈ items, item.expr.Grouped d ∧ item.output.isSome = true) (rest : List Lexeme) :
    many (lexeme (.mark .comma) >>= fun _ => LexemeReader.item d)
        ((items.flatMap fun item => .mark .comma :: Tokens.lexemes d (item.tokens d)) ++
          .ofKeyword .FROM :: rest) =
      some (items, .ofKeyword .FROM :: rest) := by
  refine many_flatMap (fun _ => True) ?_ (fun _ _ => trivial) (fun _ => by simp) trivial ?_
  · intro item hitem rest _
    rw [List.cons_append, bind_eq (lexeme_cons _ _)]
    exact item_lexemes (h item hitem).1 (h item hitem).2 rest
  · apply bind_eq_none
    apply lexeme_eq_none
    intro l hl
    rw [← Option.some.inj hl]
    exact Lexeme.noConfusion

/-- Every join begins with a keyword that ends the clause before it. -/
theorem join_tokens_cons (j : Join) :
    ∃ k rest, k ∉ [Keyword.AND, .LIKE, .NOT, .IN, .ON] ∧
      Tokens.lexemes d (j.tokens d) = .ofKeyword k :: rest := by
  obtain ⟨kind, t, condition⟩ := j
  cases kind with
  | plain => exact ⟨.JOIN, _, by decide, rfl⟩
  | natural => exact ⟨.NATURAL, _, by decide, rfl⟩
  | left => exact ⟨.LEFT, _, by decide, rfl⟩
  | inner => exact ⟨.INNER, _, by decide, rfl⟩
  | right => exact ⟨.RIGHT, _, by decide, rfl⟩
  | leftOuter => exact ⟨.LEFT, _, by decide, rfl⟩

theorem joins_lexemes {joins : List Join}
    (h : ∀ j ∈ joins, j.table.tableAlias.isSome = true ∧ ∀ e ∈ j.condition, e.Grouped d)
    {rest : List Lexeme} (hrest : EndsClause d rest) (hend : LexemeReader.join d rest = none) :
    many (LexemeReader.join d)
        ((joins.flatMap fun j => Tokens.lexemes d (j.tokens d)) ++ rest) =
      some (joins, rest) := by
  refine many_flatMap (EndsClause d) ?_ ?_ ?_ hrest hend
  · intro j hj rest hrest
    exact join_lexemes (h j hj).1 (h j hj).2 hrest
  · intro j rest
    obtain ⟨k, after, hk, hj⟩ := join_tokens_cons (d := d) j
    rw [hj, List.cons_append]
    exact endsClause_ofKeyword hk _
  · intro j
    obtain ⟨k, after, _, hj⟩ := join_tokens_cons (d := d) j
    rw [hj]
    exact List.cons_ne_nil _ _

/-- The lexemes of a filter, which can be missing. -/
def filterLexemes (d : Dialect) : Option Expr → List Lexeme
  | none => []
  | some e => .ofKeyword .WHERE :: e.lexemes d

theorem endsClause_filterLexemes (filter : Option Expr) : EndsClause d (filterLexemes d filter) := by
  cases filter with
  | none => exact fun l hl => absurd hl (by simp [filterLexemes])
  | some e => exact endsClause_ofKeyword (by decide) _

theorem join_filterLexemes (filter : Option Expr) :
    LexemeReader.join d (filterLexemes d filter) = none := by
  cases filter <;> rfl

theorem filter_lexemes {filter : Option Expr} (h : ∀ e ∈ filter, e.Legible d) :
    perhaps (clause d .WHERE) (filterLexemes d filter) = some (filter, []) := by
  cases filter with
  | none => exact perhaps_eq_none (bind_eq_none rfl)
  | some e =>
    have hnil : EndsClause d [] := fun l hl => absurd hl (by simp)
    have he := clause_lexemes (h e rfl) .WHERE hnil
    rw [List.append_nil] at he
    exact perhaps_eq_some he

/-- The lexemes of a query: select list, source, joins and filter. -/
theorem lexemes_queryTokens (first : SelectItem) (others : List SelectItem) (t : TableRef)
    (joins : List Join) (filter : Option Expr) :
    Tokens.lexemes d (Query.tokens d ⟨first :: others, some t, joins, filter⟩) =
      .ofKeyword .SELECT :: (Tokens.lexemes d (first.tokens d) ++
        ((others.flatMap fun item => .mark .comma :: Tokens.lexemes d (item.tokens d)) ++
          .ofKeyword .FROM :: (Tokens.lexemes d t.tokens ++
            ((joins.flatMap fun j => Tokens.lexemes d (j.tokens d)) ++
              filterLexemes d filter)))) := by
  cases filter <;>
    simp [Query.tokens, Query.selectTokens, Tokens.lexemes, List.flatMap_assoc, Token.lexemes,
      Lexeme.ofKeyword, filterLexemes, Expr.lexemes]

/-- Nothing comes after the condition on the rows, so it only has to be legible. -/
theorem query_lexemes_of_legible {q : Query} (h : ({ q with filter := none } : Query).Readable d)
    (hfilter : ∀ e ∈ q.filter, e.Legible d) :
    query d (Tokens.lexemes d (q.tokens d)) = some (q, []) := by
  obtain ⟨select, source, joins, filter⟩ := q
  obtain ⟨hselect, hitems, ⟨t, rfl, ht⟩, hjoins, _⟩ := h
  cases select with
  | nil => exact absurd rfl hselect
  | cons first others =>
    have hfirst := hitems first (List.mem_cons_self ..)
    have hothers := fun item hitem => hitems item (List.mem_cons_of_mem _ hitem)
    unfold query
    rw [lexemes_queryTokens, keyword, bind_eq (lexeme_cons _ _),
      bind_eq (item_lexemes hfirst.1 hfirst.2 _), bind_eq (others_lexemes hothers _), keyword,
      bind_eq (lexeme_cons _ _), bind_eq (table_lexemes ht _),
      bind_eq (joins_lexemes hjoins (endsClause_filterLexemes filter) (join_filterLexemes filter)),
      bind_eq (filter_lexemes hfilter)]
    rfl

end LexemeReader

namespace Query

/-- The query that a text is. -/
def read? (d : Dialect) (text : String) : Option Query := do
  let (q, []) ← LexemeReader.query d (← lex d text.toList) | none
  return q

/-- A query whose filter is legible is read back. -/
theorem read?_of_lex_of_legible {d : Dialect} {q : Query}
    (h : ({ q with filter := none } : Query).Readable d) (hfilter : ∀ e ∈ q.filter, e.Legible d)
    {text : String} (htext : lex d text.toList = some (Tokens.lexemes d (q.tokens d))) :
    read? d text = some q := by
  unfold read?
  rw [htext]
  show (LexemeReader.query d _).bind _ = _
  rw [LexemeReader.query_lexemes_of_legible h hfilter]
  rfl

/-- A query is read back off any text with its lexemes. -/
theorem read?_of_lex {d : Dialect} {q : Query} (h : q.Readable d) {text : String}
    (htext : lex d text.toList = some (Tokens.lexemes d (q.tokens d))) :
    read? d text = some q :=
  read?_of_lex_of_legible ⟨h.nonempty, h.items, h.source, h.joins, fun e he => absurd he (by simp)⟩
    (fun e he => (h.filter e he).legible.1) htext

/-- A query that can be read back is read back from its text. -/
theorem read?_render {d : Dialect} {q : Query} (h : q.Readable d) :
    read? d (q.render d) = some q := by
  apply read?_of_lex h
  rw [render, Tokens.render, String.toList_ofList]
  exact lex_chars d (q.wellSpelled_tokens d)

/-- So it is from its text on a single line. -/
theorem read?_renderCompact {d : Dialect} {q : Query} (h : q.Readable d) :
    read? d (q.renderCompact d) = some q := by
  apply read?_of_lex h
  rw [renderCompact, Tokens.renderCompact, String.toList_ofList]
  exact lex_compactChars d (q.wellSpelled_tokens d)

end Query

end Joinery
