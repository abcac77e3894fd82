import Joinery.Error
import Joinery.Projection
import Joinery.Sql.Query

/-!
# Compiling join graphs

A graph becomes one query: its projection is the select list, its root is where the
query starts, and each reference is a join, in declaration order. The condition of a
join is the parenthesised conjunction of the reference's restrictions.

The query holds names only. Conditions on values are for the caller to add.

A graph that shows nothing cannot be compiled, nor one with a join that the dialect lacks;
`compileWith_eq_ok_iff` says that nothing else stands in the way, and what the query is.

This is the query compiler: `compileWith` is its `compile_with`, `supports` is what
`check_join_support` asks of the dialect, and `condition`, `render` and `toSql` go by the
same names there.
-/

namespace Joinery

/-- How graphs are compiled: for which dialect, with which form of inequality, and whether the
text spreads over several lines. -/
structure Compiler where
  dialect : Dialect := .generic
  notEquals : NotEqualsForm := .negated
  pretty : Bool := true
  deriving DecidableEq, Repr, Inhabited

namespace Compiler

/-- Whether the dialect has joins of this kind. -/
def supports (c : Compiler) : JoinKind → Bool
  | .natural => c.dialect.hasNaturalJoin
  | .right => c.dialect.hasRightJoin
  | _ => true

/-- Every dialect has joins of every kind, except that T-SQL has no natural ones. -/
theorem supports_eq_false_iff {c : Compiler} {k : JoinKind} :
    c.supports k = false ↔ c.dialect = .tsql ∧ k = .natural := by
  cases k with
  | natural =>
    rw [supports, Dialect.hasNaturalJoin_eq_false_iff]
    exact (and_iff_left rfl).symm
  | right => simp [supports, Dialect.hasRightJoin_eq_true]
  | plain | left | inner | leftOuter => simp [supports]

/-- A projected column in the select list, under its output name. -/
def selectItem (p : ProjectedColumn) : SelectItem :=
  ⟨.column (some p.tableAlias) p.column, some p.output⟩

/-- The table of a node under the node's alias. -/
def tableRef (n : Node) : TableRef :=
  ⟨ObjectName.ofText n.entity.table, some n.tableAlias⟩

/-- A pinned column, qualified by the alias of its node. -/
def columnExpr? (g : JoinGraph) (c : PinnedColumn) : Option Expr :=
  (g.node? c.node).map fun n => .column (some n.tableAlias) c.column

/-- What a restriction demands of a row: its comparison between both of its columns. -/
def predicate? (c : Compiler) (g : JoinGraph) (r : PinnedRestriction) : Option Expr := do
  let left ← columnExpr? g r.localSide
  let right ← columnExpr? g r.remoteSide
  return r.comparison.predicate c.notEquals left right

/-- The condition of a reference: the conjunction of its restrictions; none for a natural join. -/
def condition (c : Compiler) (g : JoinGraph) (l : Link) : Option Expr :=
  if l.childNode.kind.takesCondition then
    (Expr.all? (l.reference.pinned.filterMap (c.predicate? g))).map .paren
  else none

/-- The query with one reference more as a join, unless the dialect lacks joins of its kind. -/
def addJoin (c : Compiler) (g : JoinGraph) (q : Query) (l : Link) : Except CompileError Query :=
  if c.supports l.childNode.kind then
    .ok (q.join l.childNode.kind (tableRef l.childNode) (c.condition g l))
  else .error (.unsupportedJoin c.dialect l.childNode.kind l.childNode.entity.table)

/-- The query for a graph that shows the given columns. -/
def compileWith (c : Compiler) (g : JoinGraph) (p : Projection) : Except CompileError Query :=
  if p.isEmpty then .error (.emptyProjection g.rootNode.entity.table)
  else
    g.links.foldlM (c.addJoin g)
      { select := p.values.map selectItem, source := some (tableRef g.rootNode) }

/-- The query for a graph that shows what its nodes show. -/
def compile (c : Compiler) (g : JoinGraph) : Except CompileError Query :=
  c.compileWith g g.projection

/-- The text of tokens, over several lines or on one, as the compiler is set. -/
def renderTokens (c : Compiler) (ts : Tokens) : String :=
  if c.pretty then ts.render c.dialect else ts.renderCompact c.dialect

/-- The text of a query in the compiler's dialect. -/
def render (c : Compiler) (q : Query) : String :=
  c.renderTokens (q.tokens c.dialect)

/-- Compiling and writing in one go; only compiling can fail. -/
def toSql (c : Compiler) (g : JoinGraph) : Except CompileError String :=
  (c.compile g).map c.render

/-! ## When a graph compiles -/

/-- The join that a reference turns into. -/
def joinOf (c : Compiler) (g : JoinGraph) (l : Link) : Join :=
  ⟨l.childNode.kind, tableRef l.childNode, c.condition g l⟩

/-- The query for a graph that shows the given columns, where the dialect has all of its joins. -/
def queryOf (c : Compiler) (g : JoinGraph) (p : Projection) : Query :=
  { select := p.values.map selectItem
    source := some (tableRef g.rootNode)
    joins := g.links.map (c.joinOf g) }

/-- The first reference in a list whose join the dialect lacks. -/
def unsupported? (c : Compiler) (ls : List Link) : Option Link :=
  ls.find? fun l => !c.supports l.childNode.kind

/-- Adding a join drops no condition: a natural join, which cannot have one, has none. -/
theorem addJoin_of_supports {c : Compiler} {g : JoinGraph} {q : Query} {l : Link}
    (h : c.supports l.childNode.kind = true) :
    c.addJoin g q l = .ok { q with joins := q.joins ++ [c.joinOf g l] } := by
  rw [addJoin, if_pos h, Query.join, joinOf]
  unfold condition
  split
  next => rfl
  next => rfl

/-- References are added in order, up to the first whose join the dialect lacks. -/
theorem foldlM_addJoin (c : Compiler) (g : JoinGraph) (ls : List Link) (q : Query) :
    ls.foldlM (c.addJoin g) q =
      match c.unsupported? ls with
      | some l => .error (.unsupportedJoin c.dialect l.childNode.kind l.childNode.entity.table)
      | none => .ok { q with joins := q.joins ++ ls.map (c.joinOf g) } := by
  induction ls generalizing q with
  | nil =>
    show Except.ok q = .ok { q with joins := q.joins ++ [] }
    rw [List.append_nil]
  | cons l rest ih =>
    rw [List.foldlM_cons, unsupported?, List.find?_cons]
    cases hs : c.supports l.childNode.kind with
    | true =>
      rw [addJoin_of_supports hs, List.map_cons]
      show List.foldlM (c.addJoin g) _ rest = _
      rw [ih, List.append_assoc]
      rfl
    | false =>
      rw [addJoin, hs]
      rfl

/-- Compiling looks for columns first and for joins the dialect lacks second. Where neither stands
in the way the query is `queryOf`. -/
theorem compileWith_eq (c : Compiler) (g : JoinGraph) (p : Projection) :
    c.compileWith g p =
      if p.isEmpty then .error (.emptyProjection g.rootNode.entity.table)
      else match c.unsupported? g.links with
        | some l => .error (.unsupportedJoin c.dialect l.childNode.kind l.childNode.entity.table)
        | none => .ok (c.queryOf g p) := by
  rw [compileWith, foldlM_addJoin]
  rfl

theorem unsupported?_eq_none_iff {c : Compiler} {ls : List Link} :
    c.unsupported? ls = none ↔ ∀ l ∈ ls, c.supports l.childNode.kind := by
  simp [unsupported?]

/-- A graph compiles exactly if it shows a column and the dialect has all of its joins. -/
theorem compileWith_eq_ok_iff {c : Compiler} {g : JoinGraph} {p : Projection} {q : Query} :
    c.compileWith g p = .ok q ↔
      p.isEmpty = false ∧ (∀ l ∈ g.links, c.supports l.childNode.kind) ∧ q = c.queryOf g p := by
  rw [← unsupported?_eq_none_iff, compileWith_eq]
  cases p.isEmpty with
  | true => simp
  | false =>
    cases c.unsupported? g.links with
    | some l => simp
    | none => simp [eq_comm]

/-- The error is about the missing columns if there are none, otherwise about the first join that
the dialect lacks. -/
theorem compileWith_eq_error_iff {c : Compiler} {g : JoinGraph} {p : Projection}
    {e : CompileError} :
    c.compileWith g p = .error e ↔
      p.isEmpty ∧ e = .emptyProjection g.rootNode.entity.table ∨
      p.isEmpty = false ∧ ∃ l, c.unsupported? g.links = some l ∧
        e = .unsupportedJoin c.dialect l.childNode.kind l.childNode.entity.table := by
  rw [compileWith_eq]
  cases p.isEmpty with
  | true => simp [eq_comm]
  | false =>
    cases c.unsupported? g.links with
    | some l => simp [eq_comm]
    | none => simp

end Compiler

end Joinery
