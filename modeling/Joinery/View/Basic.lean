import Joinery.Compiler
import Joinery.Key
import Joinery.Sql.Statement

/-!
# Views

A view is a join graph under a name. Its columns are what the graph shows and, under
their own names, the columns of the graph's key; so it answers as an entity, and can be
joined into further graphs.

Each joined node is reached from a row of the view under two names, its relation and
its alias. `accessorsOf` refuses a graph in which two of those names collide.

`View.create` is the view's `new`; `query`, `toSql`, `createStatement` and
`dropStatement` are its `query`, `to_sql`, `create_view` and `drop_view`, and
`toEntity` is what it answers as an entity.
-/

namespace Joinery

/-- How the record behind a reference is found from a row of the view. -/
inductive Accessor
  -- through the equalities among the restrictions of the reference
  | restricted (reference : Nat) (target : Nat)
  -- through the columns that the target shares with its parent
  | natural (reference : Nat) (target : Nat) (shared : List String)
  deriving DecidableEq, Repr

namespace Accessor

/-- The node whose records an accessor loads. -/
def target : Accessor → Nat
  | restricted _ t => t
  | natural _ t _ => t

/-- The reference that an accessor follows. -/
def reference : Accessor → Nat
  | restricted r _ => r
  | natural r _ _ => r

/-- The accessor for a reference: only that of a natural join carries columns. -/
def ofLink (l : Link) : Accessor :=
  if l.childNode.kind = .natural then .natural l.edge l.child l.shared
  else .restricted l.edge l.child

/-- The accessor of a reference loads records of its child. -/
theorem target_ofLink (l : Link) : (ofLink l).target = l.child := by
  unfold ofLink
  split <;> rfl

/-- The accessor of a reference follows that reference. -/
theorem reference_ofLink (l : Link) : (ofLink l).reference = l.edge := by
  unfold ofLink
  split <;> rfl

end Accessor

/-- A named view: a graph, how it is compiled, and its relations by name. -/
structure View where
  name : String
  graph : JoinGraph
  compiler : Compiler
  relations : Registry Accessor

namespace View

/-- Adds an accessor under a name that must be free. -/
def addAccessor (known : Registry Accessor) (entry : String × Accessor) :
    Except DeclarationError (Registry Accessor) :=
  if known.holds entry.1 then .error (.duplicateRelation entry.1)
  else .ok (known.claim entry.1 entry.2)

/-- The two names under which a reference is reached. -/
def accessNames (l : Link) : List (String × Accessor) :=
  [(l.childNode.relation, .ofLink l), (l.childNode.tableAlias, .ofLink l)]

/-- The accessors of a graph, under the relation and under the alias of each joined node. It fails
at the first name that is taken. -/
def accessorsOf (g : JoinGraph) : Except DeclarationError (Registry Accessor) :=
  (g.links.flatMap accessNames).foldlM addAccessor .empty

/-- A view over a graph, compiled in the default way. -/
def create (name : String) (graph : JoinGraph) : Except DeclarationError View := do
  if Text.allBlank name then throw (.invalidEntity name .blankViewName)
  let relations ← accessorsOf graph
  return { name, graph, compiler := {}, relations }

/-- The view compiled in another way. -/
def withCompiler (v : View) (compiler : Compiler) : View :=
  { v with compiler }

/-! ## The view as an entity -/

/-- The columns that identify a row of the view. -/
def key (v : View) : List KeyColumn :=
  v.graph.key

/-- A column of the key as a column of the result, under its own name. -/
def keyColumn? (g : JoinGraph) (k : KeyColumn) : Option ProjectedColumn :=
  (g.node? k.owner).map fun n => ⟨k.owner, n.tableAlias, k.name, k.name⟩

/-- The columns of the view: what the graph shows, then its key. -/
def columns (v : View) : Projection :=
  .ofColumns (v.graph.shown ++ v.key.filterMap (keyColumn? v.graph))

/-- The type of a column of the result, under the name it is shown under. -/
def typedColumn? (g : JoinGraph) (c : ProjectedColumn) : Option (String × PseudoType) := do
  let n ← g.node? c.node
  let type ← n.entity.pseudoType? c.column
  return (c.output, type)

/-- The columns with a known type, in the order of the columns. -/
def manifest (v : View) : List (String × PseudoType) :=
  v.columns.values.filterMap (typedColumn? v.graph)

/-- The view as an entity that other graphs can join. -/
def toEntity (v : View) : Entity :=
  { table := v.name
    columns := v.columns.names
    primaryKey := v.graph.keyNames
    types := v.manifest
    foreignKeys := [] }

/-! ## The view as a statement -/

def query (v : View) : Except CompileError Query :=
  v.compiler.compileWith v.graph v.columns

/-- The text of the query behind the view. -/
def toSql (v : View) : Except CompileError String :=
  v.query.map v.compiler.render

/-- The statement that creates the view, replacing one of that name where the dialect can. -/
def createStatement (v : View) : Except CompileError String :=
  v.query.map fun q =>
    v.compiler.renderTokens
      (CreateView.tokens v.compiler.dialect ⟨true, ObjectName.ofText v.name, q⟩)

/-- The statement that drops the view, if it exists where the dialect can say so. -/
def dropStatement (v : View) : String :=
  DropView.render v.compiler.dialect ⟨true, ObjectName.ofText v.name⟩

end View

end Joinery
