import Joinery.Sql.Query

/-!
# Statements that publish a query

A query is published as a view and withdrawn again. `OR REPLACE` and `IF EXISTS` are
wishes: a dialect without them gets the statement without them.

The functions `tokens` are the `to_tokens` of both statements, and `render` is their
`to_sql`.
-/

namespace Joinery

/-- A statement that creates a view for a query. -/
structure CreateView where
  orReplace : Bool
  name : ObjectName
  query : Query
  deriving BEq, Repr

/-- A statement that drops a view. -/
structure DropView where
  ifExists : Bool
  name : ObjectName
  deriving DecidableEq, Repr

/-- The tokens of a statement that creates a view; OR REPLACE only where the dialect has it. -/
def CreateView.tokens (d : Dialect) (s : CreateView) : Tokens :=
  .keyword .CREATE ::
    (if s.orReplace && d.hasCreateOrReplaceView then
      [.space, .keyword .OR, .space, .keyword .REPLACE] else [])
    ++ [.space, .keyword .VIEW, .space, .qualified s.name, .space, .keyword .AS, .newline]
    ++ s.query.tokens d

/-- The text of a statement that creates a view, over several lines. -/
def CreateView.render (d : Dialect) (s : CreateView) : String :=
  (s.tokens d).render d

/-- The text of a statement that creates a view, on one line. -/
def CreateView.renderCompact (d : Dialect) (s : CreateView) : String :=
  (s.tokens d).renderCompact d

/-- The tokens of a statement that drops a view; IF EXISTS only where the dialect has it. -/
def DropView.tokens (d : Dialect) (s : DropView) : Tokens :=
  [.keyword .DROP, .space, .keyword .VIEW]
    ++ (if s.ifExists && d.hasDropIfExists then
      [.space, .keyword .IF, .space, .keyword .EXISTS] else [])
    ++ [.space, .qualified s.name]

/-- The text of a statement that drops a view. -/
def DropView.render (d : Dialect) (s : DropView) : String :=
  (s.tokens d).render d

end Joinery
