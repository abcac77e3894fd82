import Joinery.Alias
import Joinery.Graph.Pin

/-!
# Building join graphs

A graph starts from a root and grows one joined node at a time. Every step says what came
of it and leaves a graph behind, also when it fails.

A join checks first what needs no alias, takes the alias, and puts its node into the arena,
since the restrictions may speak of it; only then it pins them. If one of them cannot be
pinned, the node is taken out of the arena again; the alias is not given back. The edge and
the entries of the two indices come last, when nothing can fail any more.

`join_cases` and `attach_cases` say everything a join can come to.

This is the graph builder: `start` is its `new`, and `project`, `projectAll` and `join` are
its `project`, `project_all` and `join`.
-/

namespace Joinery

/-- The declaration of a node to be joined. -/
structure JoinSpec where
  entity : Entity
  kind : JoinKind
  -- the name of the relation; by default that of the table
  relation : Option String := none
  restrictions : List Restriction := []
  projection : List (String × String) := []
  deriving DecidableEq, Repr

namespace JoinSpec

/-- The declaration of a node that is joined in the way a text names. -/
def withKeyword (entity : Entity) (keyword : String) : Except DeclarationError JoinSpec :=
  match JoinKind.parse keyword with
  | .ok kind => .ok { entity, kind }
  | .error unknown => .error (.unknownJoinKind unknown.text)

/-- The relation under which a joined entity is known: the declared name, or its table's. -/
def relationName (spec : JoinSpec) : String :=
  spec.relation.getD spec.entity.table

/-- The declaration with more columns to show. -/
def showing (spec : JoinSpec) (columns : List (String × String)) : JoinSpec :=
  { spec with projection := spec.projection ++ columns }

/-- The declaration with every column of the entity to show. -/
def showingAll (spec : JoinSpec) : JoinSpec :=
  spec.showing (Node.everyColumn spec.entity)

/-- The node that a declaration asks for, under the alias it was given. -/
def toNode (spec : JoinSpec) (tableAlias : String) : Node :=
  { entity := spec.entity
    tableAlias
    relation := spec.relationName
    kind := spec.kind
    projection := spec.projection }

end JoinSpec

/-- Refuses an entity that has a defect. -/
def Entity.check (e : Entity) : Except DeclarationError Unit :=
  match e.defect? with
  | some defect => .error (.invalidEntity e.table defect)
  | none => .ok ()

/-- What came of a step, and the graph it leaves behind. -/
structure Attempt (α : Type) where
  outcome : Except DeclarationError α
  graph : JoinGraph

namespace JoinGraph

/-- The node of a root: its relation is its table, and it shows nothing yet. -/
def rootOf (entity : Entity) (tableAlias : String) : Node :=
  { entity, tableAlias, relation := entity.table, kind := .plain, projection := [] }

/-- A graph of a root alone, which is known by its alias only. -/
def ofRoot (root : Node) : JoinGraph :=
  let (arena, i) := Arena.empty.addNode root
  { arena, root := i, references := [], relationIndex := [], aliasIndex := [(root.tableAlias, i)] }

/-- The graph over an entity alone, which takes the next alias unless the entity is refused. -/
def start (aliases : AliasIssuer) (entity : Entity) :
    Except DeclarationError JoinGraph × AliasIssuer :=
  match entity.check with
  | .error e => (.error e, aliases)
  | .ok () =>
    let (tableAlias, aliases) := aliases.next entity.table .root
    (.ok (ofRoot (rootOf entity tableAlias)), aliases)

/-- The graph after the node at a position has been asked to show more columns. -/
def showAt (g : JoinGraph) (i : Nat) (columns : List (String × String)) : JoinGraph :=
  { g with arena := g.arena.modifyNode i (·.showing columns) }

/-- Has a node show one more column. -/
def project (g : JoinGraph) (i : Nat) (column output : String) : Attempt Unit :=
  match g.node? i with
  | none => ⟨.error .unknownParent, g⟩
  | some n =>
    if n.entity.hasColumn column then ⟨.ok (), g.showAt i [(column, output)]⟩
    else ⟨.error (.unknownColumn n.entity.table column), g⟩

/-- Has a node show every column of its entity, each under its own name. -/
def projectAll (g : JoinGraph) (i : Nat) : Attempt Unit :=
  match g.node? i with
  | none => ⟨.error .unknownParent, g⟩
  | some n => ⟨.ok (), g.showAt i (Node.everyColumn n.entity)⟩

/-- What is wrong with a declaration, as far as that needs no alias; the first fault counts. -/
def fault? (g : JoinGraph) (spec : JoinSpec) : Option DeclarationError :=
  match spec.entity.defect? with
  | some defect => some (.invalidEntity spec.entity.table defect)
  | none =>
    if spec.kind.takesCondition && spec.restrictions.isEmpty then
      some (.missingRestrictions spec.kind spec.entity.table)
    else if (g.nodeByRelation? spec.relationName).isSome then
      some (.duplicateRelation spec.relationName)
    else
      (spec.projection.find? fun shown => !spec.entity.hasColumn shown.1).map fun shown =>
        .unknownColumn spec.entity.table shown.1

/-- Checks a declaration against the graph as far as that needs no alias, and finds the parent. -/
def checkJoin (g : JoinGraph) (parent : Nat) (spec : JoinSpec) :
    Except DeclarationError PlacedNode :=
  match g.node? parent, g.fault? spec with
  | none, _ => .error .unknownParent
  | some _, some fault => .error fault
  | some n, none => .ok (n, parent)

/-- The graph with one more node in its arena, which nothing else speaks of yet, and the node's
position. -/
def pending (g : JoinGraph) (n : Node) : JoinGraph × Nat :=
  let (arena, i) := g.arena.addNode n
  ({ g with arena }, i)

/-- The graph without a node that has turned out not to fit. -/
def withdraw (g : JoinGraph) (i : Nat) : JoinGraph :=
  { g with arena := g.arena.removeNode i }

/-- The graph in which a node of the arena is joined to a parent. -/
def settle (g : JoinGraph) (parent : Nat) (child : PlacedNode) (r : Reference) : JoinGraph :=
  let (arena, e) := g.arena.addEdge parent child.2 r
  { g with
    arena
    references := g.references ++ [e]
    relationIndex := (child.1.relation, child.2) :: g.relationIndex
    aliasIndex := (child.1.tableAlias, child.2) :: g.aliasIndex }

/-- Joins an accepted node under an alias. It is in the arena while its restrictions are pinned,
and is withdrawn when one of them cannot be. -/
def attach (g : JoinGraph) (parent : PlacedNode) (spec : JoinSpec) (tableAlias : String) :
    Attempt Nat :=
  let n := spec.toNode tableAlias
  let (grown, i) := g.pending n
  match spec.restrictions.mapM (grown.pin (n, i) parent) with
  | .error e => ⟨.error e, grown.withdraw i⟩
  | .ok pinned => ⟨.ok i, grown.settle parent.2 (n, i) ⟨spec.restrictions, pinned⟩⟩

/-- Joins one more node to a parent, and says where it is. The node takes the next alias, unless
the declaration is refused before it comes to that. -/
def join (g : JoinGraph) (aliases : AliasIssuer) (parent : Nat) (spec : JoinSpec) :
    Attempt Nat × AliasIssuer :=
  match g.checkJoin parent spec with
  | .error e => (⟨.error e, g⟩, aliases)
  | .ok parent =>
    let (tableAlias, aliases) := aliases.next spec.entity.table .joined
    (g.attach parent spec tableAlias, aliases)

/-! ## What a join needs -/

/-- A declaration has no fault exactly if its entity is sound, it has the restrictions its kind
calls for, its relation is free, and the entity has every column to be shown. -/
theorem fault?_eq_none_iff {g : JoinGraph} {spec : JoinSpec} :
    g.fault? spec = none ↔
      spec.entity.defect? = none ∧
      (spec.kind.takesCondition → spec.restrictions ≠ []) ∧
      g.nodeByRelation? spec.relationName = none ∧
      ∀ shown ∈ spec.projection, spec.entity.hasColumn shown.1 := by
  unfold fault?
  cases spec.entity.defect? with
  | some d => simp
  | none =>
    simp only
    split
    next hr => simp_all
    next hr =>
      split
      next hn =>
        have hsome : g.nodeByRelation? spec.relationName ≠ none := by
          intro h
          simp [h] at hn
        simp [hsome]
      next hn => simp_all

/-- A join can begin under any node of the graph, provided that the declaration has no fault. -/
theorem checkJoin_eq_ok_iff {g : JoinGraph} {parent : Nat} {spec : JoinSpec} {p : PlacedNode} :
    g.checkJoin parent spec = .ok p ↔
      g.node? parent = some p.1 ∧ p.2 = parent ∧ g.fault? spec = none := by
  unfold checkJoin
  cases g.node? parent with
  | none => simp
  | some n =>
    cases g.fault? spec with
    | some e => simp
    | none => simp [Prod.ext_iff, eq_comm]

/-- A column is shown if the node is there and has it, and otherwise nothing is done. -/
theorem project_cases (g : JoinGraph) (i : Nat) (column output : String) :
    (∃ e, g.project i column output = ⟨.error e, g⟩) ∨
    (∃ n, g.node? i = some n ∧ n.entity.hasColumn column = true ∧
      g.project i column output = ⟨.ok (), g.showAt i [(column, output)]⟩) := by
  unfold project
  cases g.node? i with
  | none => exact .inl ⟨_, rfl⟩
  | some n =>
    simp only
    split
    next hc => exact .inr ⟨n, rfl, hc, rfl⟩
    next => exact .inl ⟨_, rfl⟩

/-- Showing all columns either changes nothing and fails, or shows every column of an existing
node. -/
theorem projectAll_cases (g : JoinGraph) (i : Nat) :
    (∃ e, g.projectAll i = ⟨.error e, g⟩) ∨
    (∃ n, g.node? i = some n ∧
      g.projectAll i = ⟨.ok (), g.showAt i (Node.everyColumn n.entity)⟩) := by
  unfold projectAll
  cases g.node? i with
  | none => exact .inl ⟨_, rfl⟩
  | some n => exact .inr ⟨n, rfl, rfl⟩

/-- A column that cannot be shown leaves the graph as it was. -/
theorem graph_of_project_eq_error (g : JoinGraph) {i : Nat} {column output : String}
    {e : DeclarationError} (h : (g.project i column output).outcome = .error e) :
    (g.project i column output).graph = g := by
  rcases g.project_cases i column output with ⟨d, hfails⟩ | ⟨n, _, _, hshows⟩
  · rw [hfails]
  · rw [hshows] at h
    exact nomatch h

theorem graph_of_projectAll_eq_error (g : JoinGraph) {i : Nat} {e : DeclarationError}
    (h : (g.projectAll i).outcome = .error e) : (g.projectAll i).graph = g := by
  rcases g.projectAll_cases i with ⟨d, hfails⟩ | ⟨n, _, hshows⟩
  · rw [hfails]
  · rw [hshows] at h
    exact nomatch h

/-- A start is refused for a defect of its entity, or takes the next alias. -/
theorem start_cases (aliases : AliasIssuer) (entity : Entity) :
    (∃ defect, entity.defect? = some defect ∧
      start aliases entity = (.error (.invalidEntity entity.table defect), aliases)) ∨
    (entity.defect? = none ∧
      start aliases entity = (.ok (ofRoot (rootOf entity (aliases.next entity.table .root).1)),
        (aliases.next entity.table .root).2)) := by
  unfold start Entity.check
  cases entity.defect? with
  | some defect => exact .inl ⟨defect, rfl, rfl⟩
  | none => exact .inr ⟨rfl, rfl⟩

/-- A join is refused before it has done anything, or comes to attaching its node. -/
theorem join_cases (g : JoinGraph) (aliases : AliasIssuer) (parent : Nat) (spec : JoinSpec) :
    (∃ e, g.checkJoin parent spec = .error e ∧
      g.join aliases parent spec = (⟨.error e, g⟩, aliases)) ∨
    (∃ p, g.checkJoin parent spec = .ok p ∧
      g.join aliases parent spec =
        (g.attach p spec (aliases.next spec.entity.table .joined).1,
          (aliases.next spec.entity.table .joined).2)) := by
  unfold join
  cases g.checkJoin parent spec with
  | error e => exact .inl ⟨e, rfl, rfl⟩
  | ok p => exact .inr ⟨p, rfl, rfl⟩

/-- Once its node is in the arena, a join ends in one of two ways. -/
theorem attach_cases (g : JoinGraph) (parent : PlacedNode) (spec : JoinSpec)
    (tableAlias : String) :
    (∃ e, spec.restrictions.mapM
        ((g.pending (spec.toNode tableAlias)).1.pin (spec.toNode tableAlias, g.size) parent) =
          .error e ∧
      g.attach parent spec tableAlias =
        ⟨.error e, (g.pending (spec.toNode tableAlias)).1.withdraw g.size⟩) ∨
    (∃ pinned, spec.restrictions.map
        ((g.pending (spec.toNode tableAlias)).1.pin (spec.toNode tableAlias, g.size) parent) =
          pinned.map .ok ∧
      g.attach parent spec tableAlias =
        ⟨.ok g.size, (g.pending (spec.toNode tableAlias)).1.settle parent.2
          (spec.toNode tableAlias, g.size) ⟨spec.restrictions, pinned⟩⟩) := by
  have hattach : g.attach parent spec tableAlias =
      match spec.restrictions.mapM
        ((g.pending (spec.toNode tableAlias)).1.pin (spec.toNode tableAlias, g.size) parent) with
      | .error e => ⟨.error e, (g.pending (spec.toNode tableAlias)).1.withdraw g.size⟩
      | .ok pinned => ⟨.ok g.size, (g.pending (spec.toNode tableAlias)).1.settle parent.2
          (spec.toNode tableAlias, g.size) ⟨spec.restrictions, pinned⟩⟩ := rfl
  rw [hattach]
  cases h : spec.restrictions.mapM
      ((g.pending (spec.toNode tableAlias)).1.pin (spec.toNode tableAlias, g.size) parent) with
  | error e => exact .inl ⟨e, rfl, rfl⟩
  | ok pinned => exact .inr ⟨pinned, mapM_eq_ok_iff.mp h, rfl⟩

end JoinGraph

end Joinery
