import Joinery.Proofs.Graph.Views

/-!
# Graphs are coherent

`JoinGraph.Coherent` is what a user of a graph may take for granted, said of its views
alone: how the nodes are numbered, that the references form a tree in declaration order,
that names lead to the nodes that go by them, and that restrictions and projections speak
of columns that are there. `coherent_of_reachable` is the theorem that every graph that
steps lead to is so, whatever the steps were and however many of them failed.

The steps are `JoinGraph.start`, `project`, `projectAll` and `join`.
-/

namespace Joinery

namespace JoinGraph

/-- Following parents from a node ends at the root. -/
inductive ClimbsToRoot (g : JoinGraph) : Nat → Prop
  | root : ClimbsToRoot g g.root
  | parent {i : Nat} {l : Link} :
      g.incoming? i = some l → ClimbsToRoot g l.parent → ClimbsToRoot g i

/-- What the views of a graph promise. -/
structure Coherent (g : JoinGraph) : Prop where
  -- the root is node 0
  root : g.root = 0 ∧ g.node? 0 = some g.rootNode
  -- the positions of nodes are those below the number of nodes
  positions : ∀ i, (g.node? i).isSome ↔ i < g.size
  -- declaration order lists every position once, ascending, with the node that is there
  order : g.placed.map (·.2) = List.range g.size ∧ ∀ p ∈ g.placed, g.node? p.2 = some p.1
  -- there is one reference for each node but the root, in the order of the edges
  references : g.size = g.arena.edges.length + 1 ∧ g.references = List.range (g.size - 1)
  -- no reference is missing from the links
  links : g.links.map (·.edge) = g.references
  -- the reference at a position joins the node after that position to one before it
  ends : ∀ e, e + 1 < g.size → ∃ l, g.links[e]? = some l ∧ g.link? e = some l ∧ l.edge = e ∧
    l.child = e + 1 ∧ l.parent ≤ e ∧
    g.node? l.parent = some l.parentNode ∧ g.node? l.child = some l.childNode
  -- no reference leads to the root
  incomingRoot : g.incoming? g.root = none
  -- exactly one reference leads to each other node
  incoming : ∀ i, i ≠ g.root → i < g.size → ∃ l, g.incoming? i = some l ∧ l ∈ g.links ∧
    l.child = i ∧ ∀ other ∈ g.links, other.child = i → other = l
  -- the references form a tree
  climbs : ∀ i, i < g.size → g.ClimbsToRoot i
  -- joined nodes differ in their relation names
  relations : (g.joined.map (·.1.relation)).Nodup
  -- a relation name leads to the joined node that goes by it
  byRelation : ∀ name i, g.nodeByRelation? name = some i ↔
    ∃ n, (n, i) ∈ g.joined ∧ n.relation = name
  -- an alias leads to the node that has it
  byAlias : g.DistinctAliases → ∀ name i, g.nodeByAlias? name = some i ↔
    ∃ n, g.node? i = some n ∧ n.tableAlias = name
  -- every restriction of a reference is pinned, and only a natural join has none
  restrictions : ∀ l ∈ g.links, l.reference.declared.length = l.reference.pinned.length ∧
    (l.childNode.kind ≠ .natural → l.reference.declared ≠ [] ∧ l.reference.pinned ≠ [])
  -- nodes show columns of their entities only
  projections : ∀ p ∈ g.placed, ∀ shown ∈ p.1.projection, p.1.entity.hasColumn shown.1 = true

/-- Parents come earlier, so the way up ends, and it can only end at the root. -/
theorem Inv.climbsToRoot {g : JoinGraph} (h : g.Inv) (i : Nat) (hi : i < g.size) :
    g.ClimbsToRoot i := by
  induction i using Nat.strongRecOn with
  | ind i ih =>
    rcases i with _ | e
    · have hroot := ClimbsToRoot.root (g := g)
      rw [h.root] at hroot
      exact hroot
    · obtain ⟨l, hl⟩ := h.exists_link? hi
      have hparent := (h.linkAt hl).parent
      exact .parent (by rw [h.incoming?_succ, hl]) (ih l.parent (by omega) (by omega))

/-- A child has one reference. -/
theorem Inv.eq_of_child_eq {g : JoinGraph} (h : g.Inv) {l m : Link} (hl : l ∈ g.links)
    (hm : m ∈ g.links) (hc : m.child = l.child) : m = l := by
  have hl' := h.mem_links.mp hl
  have hm' := h.mem_links.mp hm
  have hlchild := (h.linkAt hl').child
  have hmchild := (h.linkAt hm').child
  have he : m.edge = l.edge := by omega
  rw [he, hl'] at hm'
  exact (Option.some.inj hm').symm

/-- Whatever steps built it, and however many of them failed, a graph is coherent. -/
theorem coherent_of_reachable {g : JoinGraph} (h : g.Reachable) : g.Coherent := by
  have hi := h.inv
  have hsize := hi.size
  refine {
    root := ⟨hi.root, by rw [← hi.node?_root, hi.root]⟩
    positions := fun i => node?_isSome_iff
    order := ⟨hi.map_snd_placed, fun p hp => hi.mem_placed.mp hp⟩
    references := ⟨hsize, by rw [hi.references, hsize, Nat.add_sub_cancel]⟩
    links := hi.map_edge_links
    ends := ?_
    incomingRoot := by rw [hi.root]; exact hi.incoming?_zero
    incoming := ?_
    climbs := hi.climbsToRoot
    relations := hi.nodup_relations
    byRelation := fun name i => hi.nodeByRelation?_eq_some_iff
    byAlias := fun hd name i => hi.nodeByAlias?_eq_some_iff hd
    restrictions := ?_
    projections := ?_ }
  · intro e he
    obtain ⟨l, hl⟩ := hi.exists_link? he
    have hat := hi.linkAt hl
    refine ⟨l, ?_, hl, hat.edge, hat.child, hat.parent, hat.parentNode, hat.childNode⟩
    rw [hi.getElem?_links, hl]
  · intro i hne hlt
    rw [hi.root] at hne
    obtain ⟨e, rfl⟩ : ∃ e, i = e + 1 := ⟨i - 1, by omega⟩
    obtain ⟨l, hl⟩ := hi.exists_link? hlt
    have hat := hi.linkAt hl
    have hmem : l ∈ g.links := hi.mem_links.mpr (by rw [hat.edge]; exact hl)
    refine ⟨l, by rw [hi.incoming?_succ, hl], hmem, hat.child, ?_⟩
    intro other hother hchild
    exact hi.eq_of_child_eq hmem hother (by rw [hchild, hat.child])
  · intro l hl
    have hat := hi.linkAt (hi.mem_links.mp hl)
    refine ⟨hat.length_eq, fun hk => ⟨hat.declared_ne_nil hk, fun hnil => ?_⟩⟩
    apply hat.declared_ne_nil hk
    rw [← List.length_eq_zero_iff, hat.length_eq, List.length_eq_zero_iff]
    exact hnil
  · intro p hp
    exact (hi.nodes p.2 p.1 (hi.mem_placed.mp hp)).shown

end JoinGraph

/-! ## A small warehouse -/

namespace Warehouse

def widgets : Entity :=
  (((Entity.ofTable "widgets").withColumn "id" .integer).withColumn "part_id" .integer).withColumn
    "name" .text |>.withPrimaryKey ["id"]

def parts : Entity :=
  ((Entity.ofTable "parts").withColumn "id" .integer).withColumn "detail" .text
    |>.withPrimaryKey ["id"]

def labels : Entity :=
  ((Entity.ofTable "labels").withColumn "text" .text).withColumn "part" .integer

/-- Widgets with their parts and labels, after a join that failed for want of a column. -/
def graph : JoinGraph :=
  let aliases := AliasIssuer.standard
  let first := aliases.next "widgets" .root
  let root := JoinGraph.ofRoot (JoinGraph.rootOf widgets first.1)
  let shown := (root.project 0 "name" "widget").graph
  let missed := shown.join first.2 0 {
    entity := parts, kind := .left, restrictions := [⟨.equals, .ofText "nope", .ofText "id"⟩] }
  let second := missed.1.graph.join missed.2 0 {
    entity := parts, kind := .left, projection := [("detail", "detail")]
    restrictions := [⟨.equals, .ofText "id", .ofText "part_id"⟩] }
  (second.1.graph.join second.2 1 {
    entity := labels, kind := .inner
    restrictions := [⟨.equals, .ofText "part", .ofText "id"⟩,
      ⟨.like, .ofText "text", .ofText "widgets.name"⟩] }).1.graph

theorem reachable_graph : graph.Reachable :=
  .join _ _ _ (.join _ _ _ (.join _ _ _ (.project _ _ _
    (@JoinGraph.Reachable.start .standard widgets _ rfl))))

/-- A graph of three nodes, in which the second join hangs under the first. -/
theorem coherent_graph : graph.Reachable ∧ graph.size = 3 ∧ graph.Coherent :=
  ⟨reachable_graph, by decide +kernel, JoinGraph.coherent_of_reachable reachable_graph⟩

end Warehouse

end Joinery
