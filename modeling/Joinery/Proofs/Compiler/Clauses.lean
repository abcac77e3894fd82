import Joinery.Compiler
import Joinery.Proofs.Sql.Compact
import Joinery.Proofs.Sql.Reading

/-!
# The text of a query, clause by clause

In either layout the text of a query is that of its clauses with a line break between them, which on
one line is a space (`Compiler.render_queryOf`). So a clause reads the same wherever it stands, and
with it the name of the table it is about: an identifier, or, where the name has a dot, the
identifiers before and after the first dot (`Dialect.objectText`).

That is so because every clause begins and ends with text, whatever expressions and names it has.

The text is that of `Compiler.render`, or of `Query.render` and `Query.renderCompact` behind it.
-/

namespace Joinery

/-! ## Names of tables and views as text -/

/-- The name of a table or view as a dialect writes it. -/
def Dialect.objectText (d : Dialect) (name : String) : String :=
  match Text.cutFirst '.' name.toList with
  | none => d.quoteIdentifier name
  | some (schema, rest) =>
    d.quoteIdentifier (String.ofList schema) ++ "." ++ d.quoteIdentifier (String.ofList rest)

/-- A name given as one text is written as the dialect writes objects. -/
theorem Token.render_qualified_ofText (d : Dialect) (name : String) :
    Token.render d (.qualified (ObjectName.ofText name)) = d.objectText name := by
  unfold Dialect.objectText ObjectName.ofText
  cases Text.cutFirst '.' name.toList with
  | none => rfl
  | some cut =>
    apply String.toList_inj.mp
    simp [Token.render, Token.chars, Dialect.quoteIdentifier]

/-! ## Clauses that show at both ends -/

/-- A regular token that is no layout can be seen. -/
theorem Token.isVisible_of_isRegular {d : Dialect} {t : Token} (hlayout : t.isLayout = false)
    (hregular : t.isRegular = true) : t.IsVisible d :=
  ⟨hlayout, Tokens.chars_ne_nil hlayout hregular⟩

namespace Tokens

variable {d : Dialect}

/-- Tokens that start with a regular one start visibly. -/
theorem startsVisibly_cons {t : Token} (hlayout : t.isLayout = false)
    (hregular : t.isRegular = true) (rest : Tokens) : StartsVisibly d (t :: rest) :=
  ⟨t, rest, rfl, Token.isVisible_of_isRegular hlayout hregular⟩

/-- Tokens that end with a regular one end visibly. -/
theorem endsVisibly_append {t : Token} (hlayout : t.isLayout = false)
    (hregular : t.isRegular = true) (front : Tokens) : EndsVisibly d (front ++ [t]) :=
  ⟨front, t, rfl, Token.isVisible_of_isRegular hlayout hregular⟩

end Tokens

open Tokens

/-- An expression begins and ends with text. -/
theorem Expr.visible_tokens (d : Dialect) :
    (e : Expr) → StartsVisibly d (e.tokens d) ∧ EndsVisibly d (e.tokens d)
  | .column none name => ⟨startsVisibly_cons rfl rfl _, endsVisibly_append rfl rfl []⟩
  | .column (some table) name =>
    ⟨startsVisibly_cons rfl rfl _, endsVisibly_append rfl rfl [.identifier table, .dot]⟩
  | .string value => ⟨startsVisibly_cons rfl rfl _, endsVisibly_append rfl rfl []⟩
  | .binary op left right => by
    have hleft := (left.visible_tokens d).1
    have hright := (right.visible_tokens d).2
    rw [tokens]
    split
    next =>
      have hcall : StartsVisibly d [.function "CONCAT", .openParen] :=
        startsVisibly_cons rfl isRegular_call _
      exact ⟨(((hcall.append _).append _).append _).append _, endsVisibly_append rfl rfl _⟩
    next => exact ⟨(hleft.append _).append _, hright.append _⟩
  | .isIn subject members negated => by
    cases members with
    | nil =>
      have hone : (Token.integer 1).isRegular = true := by decide +kernel
      rw [tokens]
      exact ⟨startsVisibly_cons rfl hone _,
        endsVisibly_append rfl hone [.integer 1, .space, _, .space]⟩
    | cons first others =>
      have hsubject := (subject.visible_tokens d).1
      rw [tokens]
      exact ⟨((((hsubject.append _).append _).append _).append _).append _,
        endsVisibly_append rfl rfl _⟩
  | .paren inner => by
    rw [tokens]
    exact ⟨startsVisibly_cons rfl rfl _, endsVisibly_append rfl rfl _⟩

theorem TableRef.startsVisibly_tokens (d : Dialect) (t : TableRef) : StartsVisibly d t.tokens :=
  startsVisibly_cons rfl rfl _

theorem TableRef.endsVisibly_tokens (d : Dialect) (t : TableRef) : EndsVisibly d t.tokens := by
  obtain ⟨name, _ | tableAlias⟩ := t
  · exact endsVisibly_append rfl rfl []
  · exact endsVisibly_append rfl rfl [.qualified name, .space]

/-- A select item ends with a name or with the end of its expression. -/
theorem SelectItem.endsVisibly_tokens (d : Dialect) (item : SelectItem) :
    EndsVisibly d (item.tokens d) := by
  obtain ⟨e, _ | output⟩ := item
  · rw [SelectItem.tokens, List.append_nil]
    exact (e.visible_tokens d).2
  · exact (endsVisibly_append rfl rfl [.space, .keyword .AS, .space]).append _

theorem Join.startsVisibly_tokens (d : Dialect) (j : Join) : StartsVisibly d (j.tokens d) := by
  obtain ⟨kind, table, condition⟩ := j
  cases kind <;> exact startsVisibly_cons rfl rfl _

/-- A join ends with its table or with its condition. -/
theorem Join.endsVisibly_tokens (d : Dialect) (j : Join) : EndsVisibly d (j.tokens d) := by
  obtain ⟨kind, table, _ | e⟩ := j
  · rw [Join.tokens, List.append_nil]
    exact (table.endsVisibly_tokens d).append _
  · exact ((e.visible_tokens d).2.append _).append _

/-- The select list ends visibly, and where it is empty the keyword before it does. -/
theorem Query.endsVisibly_selectTokens (d : Dialect) (items : List SelectItem) :
    EndsVisibly d (.keyword .SELECT :: selectTokens d items) := by
  cases items with
  | nil => exact endsVisibly_append rfl rfl []
  | cons item rest =>
    have hfirst : EndsVisibly d ([Token.keyword .SELECT, .newline, .indent 1] ++ item.tokens d) :=
      (item.endsVisibly_tokens d).append _
    exact hfirst.append_flatMap
      (fun next : SelectItem => (next.endsVisibly_tokens d).append [.comma, .newline, .indent 1]) rest

namespace Compiler

/-- What stands between two clauses. -/
def lineBreak (c : Compiler) : String :=
  if c.pretty then "\n" else " "

variable (c : Compiler) {a b : Tokens}

/-- The characters of the text, in either layout. -/
theorem toList_renderTokens (ts : Tokens) :
    (c.renderTokens ts).toList
      = if c.pretty then chars c.dialect ts else compactChars c.dialect ts := by
  unfold renderTokens
  split <;> exact String.toList_ofList

/-- Parts that show towards a separator between them are written each as it is alone. -/
theorem renderTokens_separator {sep : Token} (hsep : sep.separates = true)
    (ha : EndsVisibly c.dialect a) (hb : StartsVisibly c.dialect b) :
    c.renderTokens (a ++ sep :: b)
      = c.renderTokens a ++ (if c.pretty then sep.render c.dialect else " ") ++ c.renderTokens b := by
  apply String.toList_inj.mp
  rw [String.toList_append, String.toList_append]
  simp only [toList_renderTokens]
  cases c.pretty with
  | true => simp [chars, Token.render]
  | false => simp [compactChars_append_separator ha hsep hb]

/-- A line break between parts is a line break, or on one line a space. -/
theorem renderTokens_newline (ha : EndsVisibly c.dialect a) (hb : StartsVisibly c.dialect b) :
    c.renderTokens (a ++ .newline :: b) = c.renderTokens a ++ c.lineBreak ++ c.renderTokens b :=
  c.renderTokens_separator rfl ha hb

/-- A space between parts is a space in either layout. -/
theorem renderTokens_space (ha : EndsVisibly c.dialect a) (hb : StartsVisibly c.dialect b) :
    c.renderTokens (a ++ .space :: b) = c.renderTokens a ++ " " ++ c.renderTokens b := by
  rw [c.renderTokens_separator rfl ha hb, Token.render, Token.chars, ite_self]

theorem renderTokens_singleton {t : Token} (ht : t.IsVisible c.dialect) :
    c.renderTokens [t] = t.render c.dialect := by
  apply String.toList_inj.mp
  rw [toList_renderTokens, Token.render, String.toList_ofList, compactChars, compactFrom_text ht]
  simp [chars, compactFrom]

/-- A name alone is written as the dialect writes objects. -/
theorem renderTokens_name (name : String) :
    c.renderTokens [.qualified (ObjectName.ofText name)] = c.dialect.objectText name := by
  rw [c.renderTokens_singleton (Token.isVisible_of_isRegular rfl rfl),
    Token.render_qualified_ofText]

/-- A keyword is written before what follows it. -/
theorem renderTokens_keyword (k : Keyword) (hb : StartsVisibly c.dialect b) :
    c.renderTokens (.keyword k :: .space :: b) = k.text ++ " " ++ c.renderTokens b := by
  have hk : (Token.keyword k).IsVisible c.dialect := Token.isVisible_of_isRegular rfl rfl
  have hends : EndsVisibly c.dialect [.keyword k] := endsVisibly_append rfl rfl []
  have hspace := c.renderTokens_space hends hb
  rw [c.renderTokens_singleton hk, Token.render, Token.chars, String.ofList_toList] at hspace
  exact hspace

theorem renderTokens_keywords (ks : List Keyword) (hb : StartsVisibly c.dialect b) :
    c.renderTokens ((ks.flatMap fun k => [Token.keyword k, .space]) ++ b)
      = String.join (ks.map (·.text ++ " ")) ++ c.renderTokens b := by
  induction ks with
  | nil => simp
  | cons k ks ih =>
    have hrest : StartsVisibly c.dialect
        ((ks.flatMap fun k => [Token.keyword k, .space]) ++ b) := by
      cases ks with
      | nil => exact hb
      | cons k' ks => exact startsVisibly_cons rfl rfl _
    rw [List.flatMap_cons, List.append_assoc, List.map_cons, String.join_cons, String.append_assoc,
      ← ih]
    exact c.renderTokens_keyword k hrest

/-- Clauses that show at both ends are written each on its own, with line breaks between them. -/
theorem renderTokens_clauses {clauses : List Tokens} (ha : EndsVisibly c.dialect a)
    (h : ∀ b ∈ clauses, StartsVisibly c.dialect b ∧ EndsVisibly c.dialect b) :
    c.renderTokens (a ++ clauses.flatMap (.newline :: ·))
      = c.lineBreak.intercalate ((a :: clauses).map c.renderTokens) := by
  induction clauses generalizing a with
  | nil => simp
  | cons b clauses ih =>
    obtain ⟨⟨hstarts, hends⟩, hrest⟩ := List.forall_mem_cons.mp h
    have hbreak := c.renderTokens_newline ha (hstarts.append (clauses.flatMap (.newline :: ·)))
    rw [ih hends hrest] at hbreak
    rw [List.map_cons, List.map_cons, String.intercalate_cons_cons, ← List.map_cons, ← hbreak]
    rfl

/-! ## The clauses of a query -/

/-- A table as a query names it: by its own name, and then the alias it is given. -/
def tableText (n : Node) : String :=
  c.dialect.objectText n.entity.table ++ " " ++ c.dialect.quoteIdentifier n.tableAlias

def selectClause (p : Projection) : String :=
  c.renderTokens (.keyword .SELECT :: Query.selectTokens c.dialect (p.values.map selectItem))

def fromClause (n : Node) : String :=
  "FROM " ++ c.tableText n

/-- What a join says after its table. -/
def onText : Option Expr → String
  | none => ""
  | some e => " ON " ++ c.renderTokens (e.tokens c.dialect)

/-- A reference as a clause: its kind, its table and its condition. -/
def joinClause (g : JoinGraph) (l : Link) : String :=
  String.join (l.childNode.kind.keywords.map (·.text ++ " ")) ++ "JOIN " ++ c.tableText l.childNode
    ++ c.onText (c.condition g l)

/-- A node is written as its table and its alias. -/
theorem renderTokens_tableRef (n : Node) : c.renderTokens (tableRef n).tokens = c.tableText n := by
  have halias : (Token.identifier n.tableAlias).IsVisible c.dialect :=
    Token.isVisible_of_isRegular rfl rfl
  have hends : EndsVisibly c.dialect [.qualified (ObjectName.ofText n.entity.table)] :=
    endsVisibly_append rfl rfl []
  have hstarts : StartsVisibly c.dialect [.identifier n.tableAlias] := startsVisibly_cons rfl rfl []
  have hspace := c.renderTokens_space hends hstarts
  rw [renderTokens_name, c.renderTokens_singleton halias] at hspace
  exact hspace

/-- A condition is written after its keyword. -/
theorem renderTokens_on (ha : EndsVisibly c.dialect a) (e : Expr) :
    c.renderTokens (a ++ ([Token.space, .keyword .ON, .space] ++ e.tokens c.dialect))
      = c.renderTokens a ++ c.onText (some e) := by
  have hon : StartsVisibly c.dialect (.keyword .ON :: .space :: e.tokens c.dialect) :=
    startsVisibly_cons rfl rfl _
  have hspace := c.renderTokens_space ha hon
  rw [c.renderTokens_keyword .ON (e.visible_tokens c.dialect).1, String.append_assoc] at hspace
  exact hspace

theorem renderTokens_joinOf (g : JoinGraph) (l : Link) :
    c.renderTokens ((c.joinOf g l).tokens c.dialect) = c.joinClause g l := by
  have hstarts := (tableRef l.childNode).startsVisibly_tokens c.dialect
  have hends := (tableRef l.childNode).endsVisibly_tokens c.dialect
  have htable : c.renderTokens ((tableRef l.childNode).tokens ++
        match c.condition g l with
        | none => []
        | some e => [Token.space, .keyword .ON, .space] ++ e.tokens c.dialect)
      = c.tableText l.childNode ++ c.onText (c.condition g l) := by
    rw [← renderTokens_tableRef]
    cases c.condition g l with
    | none => rw [List.append_nil, onText, String.append_empty]
    | some e => exact c.renderTokens_on hends e
  rw [Join.tokens, List.append_assoc, List.append_assoc, joinClause, String.append_assoc,
    String.append_assoc]
  refine (c.renderTokens_keywords _ (startsVisibly_cons rfl rfl _)).trans ?_
  refine congrArg (String.join _ ++ ·) ((c.renderTokens_keyword .JOIN (hstarts.append _)).trans ?_)
  exact congrArg ("JOIN" ++ " " ++ ·) htable

/-- The text of the query for a graph is that of its clauses: what it selects, where it starts and
each of its joins. -/
theorem render_queryOf (g : JoinGraph) (p : Projection) :
    c.render (c.queryOf g p)
      = c.lineBreak.intercalate
          (c.selectClause p :: c.fromClause g.rootNode :: g.links.map (c.joinClause g)) := by
  have hstarts := (tableRef g.rootNode).startsVisibly_tokens c.dialect
  have hends := (tableRef g.rootNode).endsVisibly_tokens c.dialect
  have hfrom : c.renderTokens (.keyword .FROM :: .space :: (tableRef g.rootNode).tokens)
      = c.fromClause g.rootNode := by
    rw [c.renderTokens_keyword .FROM hstarts, renderTokens_tableRef]
    rfl
  have hclauses : ∀ b ∈ (.keyword .FROM :: .space :: (tableRef g.rootNode).tokens)
      :: g.links.map (fun l => (c.joinOf g l).tokens c.dialect),
      StartsVisibly c.dialect b ∧ EndsVisibly c.dialect b := by
    refine List.forall_mem_cons.mpr
      ⟨⟨startsVisibly_cons rfl rfl _, hends.append [.keyword .FROM, .space]⟩, fun b hb => ?_⟩
    obtain ⟨l, _, rfl⟩ := List.mem_map.mp hb
    exact ⟨(c.joinOf g l).startsVisibly_tokens c.dialect, (c.joinOf g l).endsVisibly_tokens c.dialect⟩
  have htext := c.renderTokens_clauses
    (Query.endsVisibly_selectTokens c.dialect (p.values.map selectItem)) hclauses
  have hjoins : (g.links.map fun l => (c.joinOf g l).tokens c.dialect).map c.renderTokens
      = g.links.map (c.joinClause g) := by
    rw [List.map_map]
    exact List.map_congr_left fun l _ => c.renderTokens_joinOf g l
  rw [List.map_cons, List.map_cons, hfrom, hjoins, List.flatMap_cons, List.flatMap_map,
    ← List.append_assoc] at htext
  rw [render, Query.tokens, queryOf, List.append_nil, List.flatMap_map]
  exact htext

end Compiler

end Joinery
