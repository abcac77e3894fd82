import Joinery.Entity
import Joinery.Graph.Arena
import Joinery.Restriction
import Joinery.Sql.JoinKind

/-!
# Join graphs

A join graph is an arena of nodes with a root among them. An edge is a reference: it
runs from a parent to the node it joins and carries the restrictions between them.
Beside the arena the graph keeps the references in declaration order, however deeply
they nest, and two indices: joined nodes by relation name and all nodes by alias.

The views of a graph (`links`, `placed`, `incoming?`) read these parts together. None of
them fails where the parts disagree, they leave out what they cannot place; that
nothing is ever left out is a property of how graphs are built.

Of the join graph the look-ups are here: `links`, `link?`, `placed` (its `nodes`),
`incoming?`, `nodeByRelation?` and `nodeByAlias?`.
-/

namespace Joinery

/-- One occurrence of an entity in a graph. -/
structure Node where
  entity : Entity
  tableAlias : String
  -- the name under which a view reaches the node; of the root, its table name
  relation : String
  -- how the node is joined to its parent; the root is not, and counts as plain
  kind : JoinKind
  -- the columns the node shows, as pairs of a column and the name it is shown under
  projection : List (String × String)
  deriving DecidableEq, Repr, Inhabited

abbrev PlacedNode := Node × Nat

/-- A column of the node at a position. -/
structure PinnedColumn where
  node : Nat
  column : String
  deriving DecidableEq, Repr

/-- A restriction of which both sides are columns of definite nodes. -/
structure PinnedRestriction where
  comparison : Comparison
  localSide : PinnedColumn
  remoteSide : PinnedColumn
  deriving DecidableEq, Repr

/-- What joins a node to its parent: the restrictions as declared, and the same restrictions
pinned to nodes. -/
structure Reference where
  declared : List Restriction
  pinned : List PinnedRestriction
  deriving DecidableEq, Repr

/-- Nodes and references, with the order and the names they go by. -/
structure JoinGraph where
  arena : Arena Node Reference
  root : Nat
  -- the positions of the references, in declaration order
  references : List Nat
  -- where joined nodes are, by relation name; the newest entry for a name counts
  relationIndex : List (String × Nat)
  -- where nodes are, by alias; the newest entry for an alias counts
  aliasIndex : List (String × Nat)
  deriving DecidableEq, Repr

/-- A reference at its position, together with the nodes at both of its ends. -/
structure Link where
  edge : Nat
  parent : Nat
  child : Nat
  parentNode : Node
  childNode : Node
  reference : Reference
  deriving DecidableEq, Repr

namespace Node

/-- The columns of a node, each under its own name. -/
def everyColumn (e : Entity) : List (String × String) :=
  e.columns.map fun c => (c, c)

/-- The node with more columns to show. -/
def showing (n : Node) (columns : List (String × String)) : Node :=
  { n with projection := n.projection ++ columns }

end Node

namespace JoinGraph

def size (g : JoinGraph) : Nat :=
  g.arena.nodes.length

def node? (g : JoinGraph) (i : Nat) : Option Node :=
  g.arena.node? i

/-- The root. A graph has one; only a graph without nodes would answer with an empty node. -/
def rootNode (g : JoinGraph) : Node :=
  (g.node? g.root).getD default

/-- The reference at a position, with its ends. -/
def link? (g : JoinGraph) (e : Nat) : Option Link := do
  let edge ← g.arena.edge? e
  let parentNode ← g.node? edge.source
  let childNode ← g.node? edge.target
  return {
    edge := e, parent := edge.source, child := edge.target
    parentNode, childNode, reference := edge.weight }

/-- The references in the order in which they were declared, each with its edge and its child. -/
def links (g : JoinGraph) : List Link :=
  g.references.filterMap g.link?

/-- All nodes but the root, in the order in which they were joined. -/
def joined (g : JoinGraph) : List PlacedNode :=
  g.links.map fun l => (l.childNode, l.child)

/-- Every node with its position, the root first. -/
def placed (g : JoinGraph) : List PlacedNode :=
  (g.rootNode, g.root) :: g.joined

/-- The reference that joins a node to its parent; the root has none. -/
def incoming? (g : JoinGraph) (i : Nat) : Option Link :=
  (g.arena.lastInto? i).bind g.link?

/-- The node that the index of relations has under a name. -/
def nodeByRelation? (g : JoinGraph) (name : String) : Option Nat :=
  g.relationIndex.lookup name

/-- The node that the index of aliases has under a name. -/
def nodeByAlias? (g : JoinGraph) (name : String) : Option Nat :=
  g.aliasIndex.lookup name

/-! ## What the views hold -/

/-- The positions of a graph are the numbers below its size. -/
theorem node?_isSome_iff {g : JoinGraph} {i : Nat} : (g.node? i).isSome ↔ i < g.size := by
  simp [node?, Arena.node?, size]

theorem lt_size_of_node? {g : JoinGraph} {i : Nat} {n : Node} (h : g.node? i = some n) :
    i < g.size := by
  rw [← node?_isSome_iff, h]
  rfl

theorem exists_node?_of_lt {g : JoinGraph} {i : Nat} (h : i < g.size) : ∃ n, g.node? i = some n :=
  Option.isSome_iff_exists.mp (node?_isSome_iff.mpr h)

/-- A reference has two ends when it runs between nodes of the graph. -/
theorem link?_eq_some_iff {g : JoinGraph} {e : Nat} {l : Link} :
    g.link? e = some l ↔
      ∃ edge parentNode childNode, g.arena.edge? e = some edge ∧
        g.node? edge.source = some parentNode ∧ g.node? edge.target = some childNode ∧
        l = ⟨e, edge.source, edge.target, parentNode, childNode, edge.weight⟩ := by
  simp only [link?, Option.bind_eq_bind, Option.bind_eq_some_iff, Option.pure_def,
    Option.some.injEq]
  constructor
  · intro hex
    obtain ⟨edge, he, n, hn, m, hm, rfl⟩ := hex
    exact ⟨edge, n, m, he, hn, hm, rfl⟩
  · intro hex
    obtain ⟨edge, n, m, he, hn, hm, rfl⟩ := hex
    exact ⟨edge, he, n, hn, m, hm, rfl⟩

end JoinGraph

end Joinery
