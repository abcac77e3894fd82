import Joinery.Sql.Expr
import Joinery.Sql.JoinKind

/-!
# Queries

A `SELECT` statement: what is selected, the table it starts from, the joins in order
and one condition on the rows. Conditions added later are conjoined with those
already there, and a natural join never has a condition.

The functions `tokens` are the `to_tokens_for_dialect` of the select item, the table,
the join and the query; `join` and `withFilter` are the query's `join` and `filter`,
`render` and `renderCompact` its `to_sql` and `to_sql_compact`.
-/

namespace Joinery

/-- One item of a select list, with the name it is given. -/
structure SelectItem where
  expr : Expr
  output : Option String
  deriving BEq, Repr

/-- A table in a query, with the alias it is given. The alias follows the name directly, since
`AS` is not accepted there by every dialect. -/
structure TableRef where
  name : ObjectName
  tableAlias : Option String
  deriving DecidableEq, Repr

/-- A further table of a query and how it is joined. -/
structure Join where
  kind : JoinKind
  table : TableRef
  condition : Option Expr
  deriving BEq, Repr

/-- A query. It has a source and columns once it is complete. -/
structure Query where
  select : List SelectItem := []
  source : Option TableRef := none
  joins : List Join := []
  filter : Option Expr := none
  deriving BEq, Repr

/-- The tokens of a select item: an expression, and AS before its output name. -/
def SelectItem.tokens (d : Dialect) (item : SelectItem) : Tokens :=
  item.expr.tokens d ++
    match item.output with
    | none => []
    | some name => [.space, .keyword .AS, .space, .identifier name]

/-- The tokens of a table: its name, and its alias after a space. -/
def TableRef.tokens (t : TableRef) : Tokens :=
  .qualified t.name ::
    match t.tableAlias with
    | none => []
    | some name => [.space, .identifier name]

/-- The tokens of a join: kind, table and, after ON, the condition. -/
def Join.tokens (d : Dialect) (j : Join) : Tokens :=
  (j.kind.keywords.flatMap fun k => [.keyword k, .space])
    ++ [.keyword .JOIN, .space] ++ j.table.tokens ++
    match j.condition with
    | none => []
    | some e => [.space, .keyword .ON, .space] ++ e.tokens d

namespace Query

/-- The query with one more join. A natural join drops the condition. -/
def join (q : Query) (kind : JoinKind) (table : TableRef) (condition : Option Expr) : Query :=
  { q with
    joins := q.joins ++ [⟨kind, table, if kind.takesCondition then condition else none⟩] }

/-- The query with one more condition on its rows. -/
def withFilter (q : Query) (e : Expr) : Query :=
  { q with
    filter := match q.filter with
      | none => some e
      | some present => some (.binary .and present e) }

/-- The select list as tokens, each item on a line of its own. -/
def selectTokens (d : Dialect) : List SelectItem → Tokens
  | [] => []
  | item :: rest =>
    [.newline, .indent 1] ++ item.tokens d
      ++ rest.flatMap fun next => [.comma, .newline, .indent 1] ++ next.tokens d

/-- A query as tokens: each clause and each join on a line of its own. -/
def tokens (d : Dialect) (q : Query) : Tokens :=
  .keyword .SELECT :: selectTokens d q.select
    ++ (match q.source with
      | none => []
      | some t => [.newline, .keyword .FROM, .space] ++ t.tokens)
    ++ (q.joins.flatMap fun j => .newline :: j.tokens d)
    ++ match q.filter with
      | none => []
      | some e => [.newline, .keyword .WHERE, .space] ++ e.tokens d

/-- The text of a query over several lines. -/
def render (d : Dialect) (q : Query) : String :=
  (q.tokens d).render d

/-- The text of a query on one line. -/
def renderCompact (d : Dialect) (q : Query) : String :=
  (q.tokens d).renderCompact d

end Query

end Joinery
