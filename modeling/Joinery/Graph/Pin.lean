import Joinery.Error
import Joinery.Graph.Basic
import Joinery.Outcome

/-!
# Pinning restrictions to nodes

A restriction is written with column names, perhaps qualified. Pinning decides, once
and for all, which node each side belongs to. It looks at a graph whose arena already
holds the node about to be joined, though no index lists it yet.

A qualifier names a node by its alias, else by its relation name, else by its table,
in that order. A side without one belongs to its home, which is the joined node for the
local side and the parent for the remote side; where the home lacks the column it belongs
to the only other node that has it. Once the local side has left the joined node, a remote
side without qualifier must be on the joined node, or the reference would not touch it.

Pinning never guesses: no candidate and several candidates are both errors. Each search
has one lemma that says when it finds a node (`named_eq_ok_iff`, `locateOn_eq_ok_iff`,
`locateBare_eq_ok_iff`), and `pin_eq_ok_iff` puts them together.

Of the graph builder this is `resolve_restriction` (`pin`), with `resolve_column`
(`locate`), `resolve_on` (`locateOn`) and `resolve_qualifier` (`named`).
-/

namespace Joinery

def PlacedNode.column (p : PlacedNode) (name : String) : PinnedColumn :=
  ⟨p.2, name⟩

/-- Whether the node of a side is inferred, since the side has no qualifier. -/
def Restriction.infers (r : Restriction) : Bool :=
  r.localSide.qualifier.isNone || r.remoteSide.qualifier.isNone

namespace JoinGraph

/-- The nodes with a property, in the order of their positions. -/
def those (g : JoinGraph) (property : PlacedNode → Bool) : List PlacedNode :=
  g.arena.placed.filter property

/-- The aliases of nodes, as a message about ambiguity lists them. -/
def aliasesOf (nodes : List PlacedNode) : List String :=
  nodes.map (·.1.tableAlias)

/-! ## What a qualifier names -/

/-- The node that the alias index leads to. -/
def indexed? (g : JoinGraph) (name : String) : Option PlacedNode :=
  (g.nodeByAlias? name).bind fun i => (g.node? i).map fun n => (n, i)

/-- The node with an alias: the one in the index, else the first of the arena. The node about to
be joined is in the arena only. -/
def byAlias? (g : JoinGraph) (name : String) : Option PlacedNode :=
  (g.indexed? name).or (g.arena.placed.find? (·.1.tableAlias == name))

/-- The only joined node with a relation name. The root has none to go by. -/
def byRelation? (g : JoinGraph) (name : String) : Option PlacedNode :=
  match g.those fun p => p.2 != g.root && p.1.relation == name with
  | [only] => some only
  | _ => none

/-- The only node of a table, or what is wrong with the column so qualified. -/
def byTable (g : JoinGraph) (qualifier : String) (spec : ColumnSpec) :
    Except DeclarationError PlacedNode :=
  match g.those (·.1.entity.table == qualifier) with
  | [only] => .ok only
  | [] => .error (.unknownQualifier qualifier spec.text)
  | several => .error (.ambiguousColumn spec.text (aliasesOf several))

/-- The node that the qualifier of a column names. -/
def named (g : JoinGraph) (qualifier : String) (spec : ColumnSpec) :
    Except DeclarationError PlacedNode :=
  match (g.byAlias? qualifier).or (g.byRelation? qualifier) with
  | some p => .ok p
  | none => g.byTable qualifier spec

/-! ## Which node a column belongs to -/

/-- A definite node, which must have the column. -/
def locateOn (p : PlacedNode) (column : String) : Except DeclarationError PlacedNode :=
  if p.1.entity.hasColumn column then .ok p
  else .error (.unknownColumn p.1.entity.table column)

/-- The node of a column without qualifier: its home, else the only other node that has it. -/
def locateBare (g : JoinGraph) (home : PlacedNode) (column : String) :
    Except DeclarationError PlacedNode :=
  if home.1.entity.hasColumn column then .ok home
  else
    match g.those fun p => p.2 != home.2 && p.1.entity.hasColumn column with
    | [only] => .ok only
    | [] => .error (.unknownColumn home.1.entity.table column)
    | several => .error (.ambiguousColumn column (aliasesOf several))

/-- The node of a column as written. -/
def locate (g : JoinGraph) (home : PlacedNode) (spec : ColumnSpec) :
    Except DeclarationError PlacedNode :=
  match spec.qualifier with
  | some qualifier => do locateOn (← g.named qualifier spec) spec.column
  | none => g.locateBare home spec.column

/-- The node of the remote side of a restriction, given that of its local side. -/
def locateRemote (g : JoinGraph) (child parent near : PlacedNode) (spec : ColumnSpec) :
    Except DeclarationError PlacedNode :=
  if spec.qualifier.isNone && near.2 != child.2 then locateOn child spec.column
  else g.locate parent spec

/-! ## Whole restrictions -/

/-- A restriction between the nodes of its sides. They must not meet on one node, unless both
sides are qualified and so were meant to. -/
def between (r : Restriction) (near far : PlacedNode) : Except DeclarationError PinnedRestriction :=
  if r.infers && near.2 == far.2 then
    .error (.selfRestriction r.localSide.text r.remoteSide.text near.1.tableAlias)
  else .ok ⟨r.comparison, near.column r.localSide.column, far.column r.remoteSide.column⟩

/-- A restriction of the joined node, pinned to the nodes of its sides. -/
def pin (g : JoinGraph) (child parent : PlacedNode) (r : Restriction) :
    Except DeclarationError PinnedRestriction := do
  let near ← g.locate child r.localSide
  let far ← g.locateRemote child parent near r.remoteSide
  between r near far

/-! ## When a search finds a node -/

/-- A table's name stands for a node exactly if the table occurs once. -/
theorem byTable_eq_ok_iff {g : JoinGraph} {qualifier : String} {spec : ColumnSpec} {p : PlacedNode} :
    g.byTable qualifier spec = .ok p ↔ g.those (·.1.entity.table == qualifier) = [p] := by
  unfold byTable
  split <;> simp_all

/-- A qualifier is an alias first, a relation second and a table last. -/
theorem named_eq_ok_iff {g : JoinGraph} {qualifier : String} {spec : ColumnSpec} {p : PlacedNode} :
    g.named qualifier spec = .ok p ↔
      g.byAlias? qualifier = some p ∨
      g.byAlias? qualifier = none ∧ g.byRelation? qualifier = some p ∨
      g.byAlias? qualifier = none ∧ g.byRelation? qualifier = none ∧
        g.those (·.1.entity.table == qualifier) = [p] := by
  unfold named
  cases g.byAlias? qualifier with
  | some a => simp
  | none =>
    cases g.byRelation? qualifier with
    | some b => simp
    | none => simp [byTable_eq_ok_iff]

/-- A node that has to have a column is taken exactly if it has. -/
theorem locateOn_eq_ok_iff {p q : PlacedNode} {column : String} :
    locateOn p column = .ok q ↔ p = q ∧ q.1.entity.hasColumn column := by
  unfold locateOn
  split
  · next h =>
    constructor
    · intro heq
      cases heq
      exact ⟨rfl, h⟩
    · intro hex
      obtain ⟨rfl, _⟩ := hex
      rfl
  · next h =>
    constructor
    · intro heq
      cases heq
    · intro hex
      obtain ⟨rfl, h'⟩ := hex
      exact absurd h' h

/-- A bare column belongs to its home if that has it, and otherwise to the only other node that
has. -/
theorem locateBare_eq_ok_iff {g : JoinGraph} {home p : PlacedNode} {column : String} :
    g.locateBare home column = .ok p ↔
      home.1.entity.hasColumn column ∧ home = p ∨
      ¬ home.1.entity.hasColumn column ∧
        (g.those fun q => q.2 != home.2 && q.1.entity.hasColumn column) = [p] := by
  unfold locateBare
  split
  · next h => simp [h]
  · next h =>
    split <;> simp_all

/-- The only node with a property has it, and is a node of the graph. -/
theorem of_those_eq_singleton {g : JoinGraph} {property : PlacedNode → Bool} {p : PlacedNode}
    (h : g.those property = [p]) : g.node? p.2 = some p.1 ∧ property p = true := by
  have hmem : p ∈ g.those property := by
    rw [h]
    exact List.mem_singleton.mpr rfl
  obtain ⟨hplaced, hprop⟩ := List.mem_filter.mp hmem
  exact ⟨Arena.mem_placed.mp hplaced, hprop⟩

/-- The index of aliases leads to a node exactly if it has the node's position. -/
theorem indexed?_eq_some_iff {g : JoinGraph} {name : String} {p : PlacedNode} :
    g.indexed? name = some p ↔ g.nodeByAlias? name = some p.2 ∧ g.node? p.2 = some p.1 := by
  rw [indexed?, Option.bind_eq_some_iff]
  constructor
  · intro hex
    obtain ⟨i, hi, h⟩ := hex
    obtain ⟨n, hn, rfl⟩ := Option.map_eq_some_iff.mp h
    exact ⟨hi, hn⟩
  · intro hex
    obtain ⟨hi, hn⟩ := hex
    exact ⟨p.2, hi, by rw [hn]; rfl⟩

/-- A relation stands for a node exactly if it is the only joined one of that name. -/
theorem byRelation?_eq_some_iff {g : JoinGraph} {name : String} {p : PlacedNode} :
    g.byRelation? name = some p ↔
      (g.those fun p => p.2 != g.root && p.1.relation == name) = [p] := by
  unfold byRelation?
  split
  next only hs =>
    rw [hs, Option.some.injEq, List.cons.injEq, and_iff_left rfl]
  next hs =>
    constructor
    · intro h
      exact absurd h (by simp)
    · intro h
      exact absurd h (hs p)

/-- Whatever an alias leads to is a node of the graph. -/
theorem node?_of_byAlias? {g : JoinGraph} {name : String} {p : PlacedNode}
    (h : g.byAlias? name = some p) : g.node? p.2 = some p.1 := by
  rcases Option.or_eq_some_iff.mp h with hi | ⟨_, hf⟩
  · exact (indexed?_eq_some_iff.mp hi).2
  · exact Arena.mem_placed.mp (List.mem_of_find?_eq_some hf)

/-- Whatever a qualifier leads to is a node of the graph. -/
theorem node?_of_named {g : JoinGraph} {qualifier : String} {spec : ColumnSpec} {p : PlacedNode}
    (h : g.named qualifier spec = .ok p) : g.node? p.2 = some p.1 := by
  rcases named_eq_ok_iff.mp h with ha | ⟨_, hr⟩ | ⟨_, _, ht⟩
  · exact node?_of_byAlias? ha
  · exact (of_those_eq_singleton (byRelation?_eq_some_iff.mp hr)).1
  · exact (of_those_eq_singleton ht).1

/-- A column with a qualifier is on the node that the qualifier names. -/
theorem locate_eq_ok_of_some {g : JoinGraph} {home p : PlacedNode} {spec : ColumnSpec}
    {qualifier : String} (hq : spec.qualifier = some qualifier) :
    g.locate home spec = .ok p ↔
      g.named qualifier spec = .ok p ∧ p.1.entity.hasColumn spec.column := by
  rw [locate, hq]
  constructor
  · intro h
    obtain ⟨a, ha, hon⟩ := bind_eq_ok_iff.mp h
    obtain ⟨rfl, hc⟩ := locateOn_eq_ok_iff.mp hon
    exact ⟨ha, hc⟩
  · intro hex
    obtain ⟨ha, hc⟩ := hex
    exact bind_eq_ok_iff.mpr ⟨p, ha, locateOn_eq_ok_iff.mpr ⟨rfl, hc⟩⟩

/-- Without a qualifier the search is for a bare column. -/
theorem locate_eq_of_none {g : JoinGraph} {home : PlacedNode} {spec : ColumnSpec}
    (hq : spec.qualifier = none) : g.locate home spec = g.locateBare home spec.column := by
  rw [locate, hq]

/-- A located node is a node of the graph and has the column it was located for. -/
theorem of_locate {g : JoinGraph} {home p : PlacedNode} {spec : ColumnSpec}
    (hhome : g.node? home.2 = some home.1) (h : g.locate home spec = .ok p) :
    g.node? p.2 = some p.1 ∧ p.1.entity.hasColumn spec.column := by
  cases hq : spec.qualifier with
  | some qualifier =>
    obtain ⟨hn, hc⟩ := (locate_eq_ok_of_some hq).mp h
    exact ⟨node?_of_named hn, hc⟩
  | none =>
    rw [locate_eq_of_none hq] at h
    rcases locateBare_eq_ok_iff.mp h with ⟨hc, rfl⟩ | ⟨_, hp⟩
    · exact ⟨hhome, hc⟩
    · obtain ⟨hn, hprop⟩ := of_those_eq_singleton hp
      exact ⟨hn, (Bool.and_eq_true_iff.mp hprop).2⟩

/-- So is the node of the remote side. -/
theorem of_locateRemote {g : JoinGraph} {child parent near far : PlacedNode} {spec : ColumnSpec}
    (hchild : g.node? child.2 = some child.1) (hparent : g.node? parent.2 = some parent.1)
    (h : g.locateRemote child parent near spec = .ok far) :
    g.node? far.2 = some far.1 ∧ far.1.entity.hasColumn spec.column := by
  unfold locateRemote at h
  split at h
  next =>
    obtain ⟨rfl, hc⟩ := locateOn_eq_ok_iff.mp h
    exact ⟨hchild, hc⟩
  next => exact of_locate hparent h

/-- Two sides found make a pinned restriction, unless both are bare and stand on one node. -/
theorem between_eq_ok_iff {r : Restriction} {near far : PlacedNode} {t : PinnedRestriction} :
    between r near far = .ok t ↔
      ¬ (r.infers ∧ near.2 = far.2) ∧
        t = ⟨r.comparison, near.column r.localSide.column, far.column r.remoteSide.column⟩ := by
  unfold between
  split
  · next h =>
    have : r.infers ∧ near.2 = far.2 := by simpa using h
    exact ⟨nofun, fun h => absurd this h.1⟩
  · next h =>
    have : ¬ (r.infers ∧ near.2 = far.2) := by simpa using h
    constructor
    · intro heq
      cases heq
      exact ⟨this, rfl⟩
    · intro hex
      obtain ⟨_, rfl⟩ := hex
      rfl

/-- A restriction can be pinned exactly if its local side is found, then its remote side, and the
two do not meet unasked. -/
theorem pin_eq_ok_iff {g : JoinGraph} {child parent : PlacedNode} {r : Restriction}
    {t : PinnedRestriction} :
    g.pin child parent r = .ok t ↔
      ∃ near far, g.locate child r.localSide = .ok near ∧
        g.locateRemote child parent near r.remoteSide = .ok far ∧
        ¬ (r.infers ∧ near.2 = far.2) ∧
        t = ⟨r.comparison, near.column r.localSide.column, far.column r.remoteSide.column⟩ := by
  unfold pin
  constructor
  · intro h
    obtain ⟨near, hn, h⟩ := bind_eq_ok_iff.1 h
    obtain ⟨far, hf, h⟩ := bind_eq_ok_iff.1 h
    exact ⟨near, far, hn, hf, between_eq_ok_iff.1 h⟩
  · intro hex
    obtain ⟨near, far, hn, hf, h⟩ := hex
    exact bind_eq_ok_iff.2 ⟨near, hn, bind_eq_ok_iff.2 ⟨far, hf, between_eq_ok_iff.2 h⟩⟩

end JoinGraph

end Joinery
