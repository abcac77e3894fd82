import Joinery.Graph.Workshop

/-!
# The invariant of graphs under construction

A graph keeps the same facts in several places: the arena has its nodes and edges, the
references are listed apart, and two indices go by name. `JoinGraph.Inv` says how these
places agree, and what holds of each node and each reference; it is the whole of what the
later theorems about graphs rest on.

The argument has one lemma for each thing a step does to a graph: `inv_ofRoot` starts it,
`inv_showAt` and `inv_grown` keep it, and `withdraw_pending` says that a join that fails
leaves the graph it was tried on, because its node is the last one and has no edges.
`Reachable.inv` puts them together for every graph that steps lead to, failed or not, and
`Workshop.reachable_run` for graphs that grow side by side.
-/

namespace Joinery

/-- A node is over an entity without defects and shows only columns of it. -/
structure Node.Sound (n : Node) : Prop where
  accepted : n.entity.defect? = none
  shown : ∀ shown ∈ n.projection, n.entity.hasColumn shown.1 = true

namespace JoinGraph

/-! ## What a larger graph keeps -/

/-- Every node is still at its position in another graph, over the same entity. -/
def Keeps (g h : JoinGraph) : Prop :=
  ∀ i n, g.node? i = some n → ∃ m, h.node? i = some m ∧ m.entity = n.entity

/-- A pinned column belongs to a node no later than a given one, and the node has it. -/
def Owns (g : JoinGraph) (last : Nat) (c : PinnedColumn) : Prop :=
  c.node ≤ last ∧ ∃ n, g.node? c.node = some n ∧ n.entity.hasColumn c.column = true

/-- A node keeps its columns while the graph grows. -/
theorem Owns.mono {g h : JoinGraph} {last : Nat} {c : PinnedColumn} (hk : g.Keeps h)
    (ho : g.Owns last c) : h.Owns last c := by
  obtain ⟨hle, n, hn, hc⟩ := ho
  obtain ⟨m, hm, he⟩ := hk _ _ hn
  refine ⟨hle, m, hm, ?_⟩
  rw [he]
  exact hc

/-- A restriction and what it is pinned to, on nodes no later than a given one. -/
structure PinnedAs (g : JoinGraph) (last : Nat) (r : Restriction) (t : PinnedRestriction) :
    Prop where
  comparison : t.comparison = r.comparison
  localColumn : t.localSide.column = r.localSide.column
  remoteColumn : t.remoteSide.column = r.remoteSide.column
  localOwned : g.Owns last t.localSide
  remoteOwned : g.Owns last t.remoteSide

/-- A restriction stays pinned while the graph grows. -/
theorem PinnedAs.mono {g h : JoinGraph} {last : Nat} {r : Restriction} {t : PinnedRestriction}
    (hk : g.Keeps h) (hp : g.PinnedAs last r t) : h.PinnedAs last r t :=
  { hp with
    localOwned := hp.localOwned.mono hk
    remoteOwned := hp.remoteOwned.mono hk }

/-- Pinning in a graph whose last node is the joined one stays within that graph. -/
theorem pinnedAs_of_pin {g : JoinGraph} {child parent : PlacedNode} {r : Restriction}
    {t : PinnedRestriction} (hchild : g.node? child.2 = some child.1)
    (hlast : g.size = child.2 + 1) (hparent : g.node? parent.2 = some parent.1)
    (h : g.pin child parent r = .ok t) : g.PinnedAs child.2 r t := by
  obtain ⟨near, far, hnear, hfar, _, rfl⟩ := pin_eq_ok_iff.mp h
  obtain ⟨hnearNode, hnearColumn⟩ := of_locate hchild hnear
  obtain ⟨hfarNode, hfarColumn⟩ := of_locateRemote hchild hparent hfar
  have hnearLt := lt_size_of_node? hnearNode
  have hfarLt := lt_size_of_node? hfarNode
  exact {
    comparison := rfl
    localColumn := rfl
    remoteColumn := rfl
    localOwned := ⟨by show near.2 ≤ child.2; omega, near.1, hnearNode, hnearColumn⟩
    remoteOwned := ⟨by show far.2 ≤ child.2; omega, far.1, hfarNode, hfarColumn⟩ }

/-! ## The invariant -/

/-- The edge at a position joins the node after it to a node before that one, and carries its
restrictions as declared and as pinned; only a natural join does without. -/
structure SoundEdge (g : JoinGraph) (e : Nat) (edge : Edge Reference) : Prop where
  target : edge.target = e + 1
  source : edge.source ≤ e
  length : edge.weight.declared.length = edge.weight.pinned.length
  pinned : ∀ p ∈ edge.weight.declared.zip edge.weight.pinned, g.PinnedAs (e + 1) p.1 p.2
  restricted : ∀ n, g.node? (e + 1) = some n → n.kind ≠ .natural → edge.weight.declared ≠ []

/-- Nodes by a name of theirs, the newest first, as an index lists them. -/
def listing (name : Node → String) (placed : List PlacedNode) : List (String × Nat) :=
  (placed.map fun p => (name p.1, p.2)).reverse

/-- How the parts of a graph agree: there is an edge for every node but the root, the references
are the edges in their order, and the indices list the nodes of the arena. -/
structure Inv (g : JoinGraph) : Prop where
  root : g.root = 0
  size : g.size = g.arena.edges.length + 1
  references : g.references = List.range g.arena.edges.length
  nodes : ∀ i n, g.node? i = some n → n.Sound
  edges : ∀ e edge, g.arena.edge? e = some edge → g.SoundEdge e edge
  relationIndex : g.relationIndex = listing (·.relation) g.arena.placed.tail
  relations : (g.relationIndex.map (·.1)).Nodup
  aliasIndex : g.aliasIndex = listing (·.tableAlias) g.arena.placed

/-- A reference stays sound while the graph grows. -/
theorem SoundEdge.mono {g h : JoinGraph} {e : Nat} {edge : Edge Reference} (hk : g.Keeps h)
    (hkind : ∀ m, h.node? (e + 1) = some m → ∃ n, g.node? (e + 1) = some n ∧ n.kind = m.kind)
    (hs : g.SoundEdge e edge) : h.SoundEdge e edge :=
  { hs with
    pinned := fun p hp => (hs.pinned p hp).mono hk
    restricted := by
      intro m hm hnat
      obtain ⟨n, hn, hnm⟩ := hkind m hm
      exact hs.restricted n hn (by rw [hnm]; exact hnat) }

theorem listing_append (name : Node → String) (placed : List PlacedNode) (p : PlacedNode) :
    listing name (placed ++ [p]) = (name p.1, p.2) :: listing name placed := by
  rw [listing, List.map_append, List.reverse_append]
  rfl

theorem Inv.closed {g : JoinGraph} (h : g.Inv) : g.arena.Closed := by
  intro edge hedge
  obtain ⟨e, he⟩ := List.mem_iff_getElem?.mp hedge
  have hsound := h.edges e edge he
  have hlt : e < g.arena.edges.length := (List.getElem?_eq_some_iff.mp he).1
  have hsize : g.arena.nodes.length = g.arena.edges.length + 1 := h.size
  have htarget := hsound.target
  have hsource := hsound.source
  exact ⟨by omega, by omega⟩

/-! ## The start -/

/-- A root alone satisfies the invariant. -/
theorem inv_ofRoot {n : Node} (hn : n.Sound) : (ofRoot n).Inv where
  root := rfl
  size := rfl
  references := rfl
  nodes := by
    intro i m hm
    rcases i with _ | i
    · have hmn : n = m := Option.some.inj hm
      rw [← hmn]
      exact hn
    · exact absurd hm (by simp [ofRoot, node?, Arena.node?, Arena.addNode, Arena.empty])
  edges := by
    intro e edge he
    exact absurd he (by simp [ofRoot, Arena.edge?, Arena.addNode, Arena.empty])
  relationIndex := rfl
  relations := List.nodup_nil
  aliasIndex := rfl

/-! ## Showing columns -/

theorem node?_showAt (g : JoinGraph) (i : Nat) (columns : List (String × String)) (j : Nat) :
    (g.showAt i columns).node? j =
      (g.node? j).map fun n => if i = j then n.showing columns else n :=
  Arena.node?_modifyNode g.arena i _ j

/-- What columns shown do not matter to stays as it is. -/
theorem map_placed_showAt (g : JoinGraph) (i : Nat) (columns : List (String × String))
    {name : Node → String} (h : ∀ n : Node, name (n.showing columns) = name n) :
    (g.showAt i columns).arena.placed.map (fun p => (name p.1, p.2)) =
      g.arena.placed.map fun p => (name p.1, p.2) :=
  Arena.map_placed_modifyNode g.arena i fun n j => by rw [h]

/-- Showing columns changes no node but in what it shows. -/
theorem node?_of_node?_showAt {g : JoinGraph} {i j : Nat} {columns : List (String × String)}
    {m : Node} (h : (g.showAt i columns).node? j = some m) :
    ∃ n, g.node? j = some n ∧ (m = n ∨ i = j ∧ m = n.showing columns) := by
  rw [node?_showAt] at h
  obtain ⟨n, hn, hm⟩ := Option.map_eq_some_iff.mp h
  refine ⟨n, hn, ?_⟩
  by_cases hij : i = j
  · rw [if_pos hij] at hm
    exact .inr ⟨hij, hm.symm⟩
  · rw [if_neg hij] at hm
    exact .inl hm.symm

theorem keeps_showAt (g : JoinGraph) (i : Nat) (columns : List (String × String)) :
    g.Keeps (g.showAt i columns) := by
  intro j n hn
  rw [node?_showAt, hn]
  refine ⟨_, rfl, ?_⟩
  split
  next => rfl
  next => rfl

/-- Showing columns that the entity has keeps the invariant. -/
theorem inv_showAt {g : JoinGraph} (h : g.Inv) {i : Nat} {columns : List (String × String)}
    (hcolumns : ∀ n, g.node? i = some n → ∀ shown ∈ columns, n.entity.hasColumn shown.1 = true) :
    (g.showAt i columns).Inv where
  root := h.root
  size := by
    show (g.arena.nodes.modify i _).length = g.arena.edges.length + 1
    rw [List.length_modify]
    exact h.size
  references := h.references
  nodes := by
    intro j m hm
    obtain ⟨n, hn, rfl | ⟨rfl, rfl⟩⟩ := node?_of_node?_showAt hm
    · exact h.nodes j m hn
    · have hs := h.nodes i n hn
      refine ⟨hs.accepted, ?_⟩
      intro shown hshown
      rcases List.mem_append.mp hshown with hold | hnew
      · exact hs.shown shown hold
      · exact hcolumns n hn shown hnew
  edges := by
    intro e edge he
    refine (h.edges e edge he).mono (keeps_showAt g i columns) ?_
    intro m hm
    obtain ⟨n, hn, rfl | ⟨_, rfl⟩⟩ := node?_of_node?_showAt hm
    · exact ⟨m, hn, rfl⟩
    · exact ⟨n, hn, rfl⟩
  relationIndex := by
    rw [listing, List.map_tail, map_placed_showAt g i columns fun _ => rfl, ← List.map_tail]
    exact h.relationIndex
  relations := h.relations
  aliasIndex := by
    rw [listing, map_placed_showAt g i columns fun _ => rfl]
    exact h.aliasIndex

/-! ## Joining a node -/

/-- A node still to be joined stands behind the others. -/
theorem node?_pending (g : JoinGraph) (n : Node) (i : Nat) :
    (g.pending n).1.node? i = if i = g.size then some n else g.node? i :=
  Arena.node?_addNode g.arena n i

theorem keeps_pending (g : JoinGraph) (n : Node) : g.Keeps (g.pending n).1 := by
  intro i m hm
  have hlt := lt_size_of_node? hm
  rw [node?_pending, if_neg (by omega)]
  exact ⟨m, hm, rfl⟩

/-- A node that was just taken in goes without a trace. -/
theorem withdraw_pending {g : JoinGraph} (h : g.Inv) (n : Node) :
    (g.pending n).1.withdraw g.size = g := by
  show { g with arena := (g.arena.addNode n).1.removeNode (g.arena.addNode n).2 } = g
  rw [Arena.removeNode_addNode h.closed]

/-- The graph after a join that succeeds. -/
def grown (g : JoinGraph) (parent : Nat) (n : Node) (r : Reference) : JoinGraph :=
  (g.pending n).1.settle parent (n, g.size) r

theorem node?_grown (g : JoinGraph) (parent : Nat) (n : Node) (r : Reference) (i : Nat) :
    (g.grown parent n r).node? i = if i = g.size then some n else g.node? i :=
  node?_pending g n i

theorem edge?_grown (g : JoinGraph) (parent : Nat) (n : Node) (r : Reference) (e : Nat) :
    (g.grown parent n r).arena.edge? e =
      if e = g.arena.edges.length then some ⟨parent, g.size, r⟩ else g.arena.edge? e :=
  Arena.edge?_addEdge (g.pending n).1.arena parent g.size r e

theorem keeps_grown (g : JoinGraph) (parent : Nat) (n : Node) (r : Reference) :
    g.Keeps (g.grown parent n r) :=
  keeps_pending g n

/-- The restrictions of an accepted declaration, pinned, are a sound reference. -/
theorem soundEdge_grown {g : JoinGraph} (h : g.Inv) {parent : PlacedNode} {n : Node}
    {declared : List Restriction} {pinned : List PinnedRestriction}
    (hparent : g.node? parent.2 = some parent.1) (hdeclared : n.kind ≠ .natural → declared ≠ [])
    (hpinned : declared.map ((g.pending n).1.pin (n, g.size) parent) = pinned.map .ok) :
    (g.grown parent.2 n ⟨declared, pinned⟩).SoundEdge g.arena.edges.length
      ⟨parent.2, g.size, ⟨declared, pinned⟩⟩ := by
  have hsize := h.size
  have hparentLt := lt_size_of_node? hparent
  have hchild : (g.pending n).1.node? g.size = some n := by
    rw [node?_pending, if_pos rfl]
  have hparent' : (g.pending n).1.node? parent.2 = some parent.1 := by
    rw [node?_pending, if_neg (by omega)]
    exact hparent
  have hlast : (g.pending n).1.size = g.size + 1 := by
    show (g.arena.nodes ++ [n]).length = g.arena.nodes.length + 1
    rw [List.length_append]
    rfl
  refine ⟨hsize, by show parent.2 ≤ _; omega, length_eq_of_map_eq_map_ok hpinned, ?_, ?_⟩
  · intro p hp
    rw [← hsize]
    have hpin := pinnedAs_of_pin hchild hlast hparent' (eq_ok_of_mem_zip hpinned p hp)
    have hkeeps : (g.pending n).1.Keeps (g.grown parent.2 n ⟨declared, pinned⟩) :=
      fun i m hm => ⟨m, hm, rfl⟩
    exact hpin.mono hkeeps
  · intro m hm
    rw [node?_grown, if_pos hsize.symm, Option.some.injEq] at hm
    rw [← hm]
    exact hdeclared

/-- Growing a graph by a sound node with pinned restrictions keeps the invariant. -/
theorem inv_grown {g : JoinGraph} (h : g.Inv) {parent : PlacedNode} {n : Node}
    {declared : List Restriction} {pinned : List PinnedRestriction} (hn : n.Sound)
    (hfree : g.nodeByRelation? n.relation = none)
    (hparent : g.node? parent.2 = some parent.1) (hdeclared : n.kind ≠ .natural → declared ≠ [])
    (hpinned : declared.map ((g.pending n).1.pin (n, g.size) parent) = pinned.map .ok) :
    (g.grown parent.2 n ⟨declared, pinned⟩).Inv where
  root := h.root
  size := by
    have hsize : g.arena.nodes.length = g.arena.edges.length + 1 := h.size
    show (g.arena.nodes ++ [n]).length = (g.arena.edges ++ [_]).length + 1
    rw [List.length_append, List.length_append, hsize]
    rfl
  references := by
    show g.references ++ [g.arena.edges.length] = List.range (g.arena.edges ++ [_]).length
    rw [List.length_append, h.references]
    exact List.range_succ.symm
  nodes := by
    intro i m hm
    rw [node?_grown] at hm
    split at hm
    next => exact Option.some.inj hm ▸ hn
    next => exact h.nodes i m hm
  edges := by
    intro e edge he
    rw [edge?_grown] at he
    split at he
    next heq =>
      rw [heq, ← Option.some.inj he]
      exact soundEdge_grown h hparent hdeclared hpinned
    next hne =>
      have hlt : e < g.arena.edges.length := (List.getElem?_eq_some_iff.mp he).1
      have hsize := h.size
      refine (h.edges e edge he).mono (keeps_grown g _ n _) ?_
      intro m hm
      rw [node?_grown, if_neg (by omega)] at hm
      exact ⟨m, hm, rfl⟩
  relationIndex := by
    have hne : g.arena.placed ≠ [] := by
      intro hnil
      have hlen := congrArg List.length hnil
      have hsize : g.arena.nodes.length = g.arena.edges.length + 1 := h.size
      rw [Arena.placed, List.length_zipIdx, List.length_nil] at hlen
      omega
    show (n.relation, g.size) :: g.relationIndex =
      listing (·.relation) (g.arena.addNode n).1.placed.tail
    rw [Arena.placed_addNode, List.tail_append_of_ne_nil hne, listing_append, h.relationIndex]
    rfl
  relations := by
    show ((n.relation, g.size) :: g.relationIndex |>.map (·.1)).Nodup
    rw [List.map_cons, List.nodup_cons]
    refine ⟨?_, h.relations⟩
    intro hmem
    obtain ⟨p, hp, hname⟩ := List.mem_map.mp hmem
    have hno := List.lookup_eq_none_iff.mp hfree p hp
    rw [bne_iff_ne] at hno
    exact hno hname.symm
  aliasIndex := by
    show (n.tableAlias, g.size) :: g.aliasIndex =
      listing (·.tableAlias) (g.arena.addNode n).1.placed
    rw [Arena.placed_addNode, listing_append, h.aliasIndex]
    rfl

/-- What an accepted declaration is known to be. -/
theorem sound_of_checkJoin {g : JoinGraph} {parent : Nat} {spec : JoinSpec} {p : PlacedNode}
    (h : g.checkJoin parent spec = .ok p) (tableAlias : String) :
    (spec.toNode tableAlias).Sound ∧ g.nodeByRelation? spec.relationName = none ∧
      g.node? p.2 = some p.1 ∧ (spec.kind ≠ .natural → spec.restrictions ≠ []) := by
  obtain ⟨hp, hpos, hfault⟩ := checkJoin_eq_ok_iff.mp h
  obtain ⟨haccepted, hrestricted, hfree, hshown⟩ := fault?_eq_none_iff.mp hfault
  refine ⟨⟨haccepted, hshown⟩, hfree, ?_, ?_⟩
  · rw [hpos]
    exact hp
  · intro hk
    exact hrestricted (decide_eq_true hk)

/-- A join that fails leaves the graph, and one that succeeds adds its node after the others. -/
theorem join_of_inv {g : JoinGraph} (h : g.Inv) (aliases : AliasIssuer) (parent : Nat)
    (spec : JoinSpec) :
    (∃ e, (g.join aliases parent spec).1 = ⟨.error e, g⟩) ∨
    ∃ p n pinned, g.checkJoin parent spec = .ok p ∧
      n = spec.toNode (aliases.next spec.entity.table .joined).1 ∧
      spec.restrictions.map ((g.pending n).1.pin (n, g.size) p) = pinned.map .ok ∧
      (g.join aliases parent spec).1 =
        ⟨.ok g.size, g.grown p.2 n ⟨spec.restrictions, pinned⟩⟩ := by
  rcases join_cases g aliases parent spec with ⟨e, _, hjoin⟩ | ⟨p, hp, hjoin⟩
  · exact .inl ⟨e, by rw [hjoin]⟩
  · rcases attach_cases g p spec (aliases.next spec.entity.table .joined).1 with
      ⟨e, _, hattach⟩ | ⟨pinned, hpinned, hattach⟩
    · left
      refine ⟨e, ?_⟩
      rw [hjoin, hattach, withdraw_pending h]
    · right
      exact ⟨p, _, pinned, hp, rfl, hpinned, by rw [hjoin, hattach]; rfl⟩

/-- A join keeps the invariant, whether it succeeds or not. -/
theorem inv_join {g : JoinGraph} (h : g.Inv) (aliases : AliasIssuer) (parent : Nat)
    (spec : JoinSpec) : (g.join aliases parent spec).1.graph.Inv := by
  rcases join_of_inv h aliases parent spec with ⟨e, hjoin⟩ | ⟨p, n, pinned, hp, hn, hpinned, hjoin⟩
  · rw [hjoin]
    exact h
  · obtain ⟨hsound, hfree, hparent, hrestricted⟩ :=
      sound_of_checkJoin hp (aliases.next spec.entity.table .joined).1
    rw [hjoin]
    subst hn
    exact inv_grown h hsound hfree hparent hrestricted hpinned

/-! ## Every graph that steps lead to -/

/-- A sound root always starts a graph. -/
theorem start_eq_ok {aliases : AliasIssuer} {entity : Entity} (h : entity.defect? = none) :
    (start aliases entity).1 =
      .ok (ofRoot (rootOf entity (aliases.next entity.table .root).1)) := by
  unfold start Entity.check
  rw [h]

/-- A graph that has just started satisfies the invariant. -/
theorem inv_start {aliases : AliasIssuer} {entity : Entity} {g : JoinGraph}
    (h : (start aliases entity).1 = .ok g) : g.Inv := by
  unfold start Entity.check at h
  cases hd : entity.defect? with
  | some d =>
    rw [hd] at h
    exact absurd h (by simp)
  | none =>
    rw [hd] at h
    rw [← Except.ok.inj h]
    exact inv_ofRoot ⟨hd, fun shown hshown => absurd hshown (by simp [rootOf])⟩

/-- Showing a column keeps the invariant. -/
theorem inv_project {g : JoinGraph} (h : g.Inv) (i : Nat) (column output : String) :
    (g.project i column output).graph.Inv := by
  unfold project
  cases hn : g.node? i with
  | none => exact h
  | some n =>
    show (if n.entity.hasColumn column = true then (⟨.ok (), g.showAt i [(column, output)]⟩ :
      Attempt Unit) else ⟨_, g⟩).graph.Inv
    split
    next hc =>
      refine inv_showAt h ?_
      intro m hm shown hshown
      rw [hn, Option.some.injEq] at hm
      rw [List.mem_singleton.mp hshown, ← hm]
      exact hc
    next => exact h

theorem inv_projectAll {g : JoinGraph} (h : g.Inv) (i : Nat) : (g.projectAll i).graph.Inv := by
  unfold projectAll
  cases hn : g.node? i with
  | none => exact h
  | some n =>
    refine inv_showAt h ?_
    intro m hm shown hshown
    rw [hn, Option.some.injEq] at hm
    obtain ⟨c, hc, rfl⟩ := List.mem_map.mp hshown
    rw [← hm]
    exact Entity.hasColumn_iff.mpr hc

/-- The graphs that steps lead to: a start, and from there any steps on any nodes, whatever
comes of them. A join takes its alias from an issuer that others may have used meanwhile. -/
inductive Reachable : JoinGraph → Prop
  | start {aliases : AliasIssuer} {entity : Entity} {g : JoinGraph} :
      (start aliases entity).1 = .ok g → Reachable g
  | project {g : JoinGraph} (i : Nat) (column output : String) :
      Reachable g → Reachable (g.project i column output).graph
  | projectAll {g : JoinGraph} (i : Nat) : Reachable g → Reachable (g.projectAll i).graph
  | join {g : JoinGraph} (aliases : AliasIssuer) (parent : Nat) (spec : JoinSpec) :
      Reachable g → Reachable (g.join aliases parent spec).1.graph

/-- Every graph that can be reached satisfies the invariant. -/
theorem Reachable.inv {g : JoinGraph} (h : g.Reachable) : g.Inv := by
  induction h with
  | start hok => exact inv_start hok
  | project i column output _ ih => exact inv_project ih i column output
  | projectAll i _ ih => exact inv_projectAll ih i
  | join aliases parent spec _ ih => exact inv_join ih aliases parent spec

end JoinGraph

namespace Workshop

/-- What holds of all graphs and of what an attempt leaves behind still holds of all. -/
theorem forall_attempt {P : JoinGraph → Prop} {α : Type} {w : Workshop} {i : Nat}
    {tried : JoinGraph → Attempt α × AliasIssuer} (hw : ∀ g ∈ w.graphs, P g)
    (htried : ∀ g ∈ w.graphs, P (tried g).1.graph) : ∀ g ∈ (w.attempt i tried).2.graphs, P g := by
  unfold attempt
  cases hg : w.graph? i with
  | none => exact hw
  | some g =>
    intro h hh
    rcases List.mem_or_eq_of_mem_set hh with hold | rfl
    · exact hw h hold
    · exact htried g (List.mem_of_getElem? hg)

/-- A step on graphs that can be reached leaves such graphs behind. -/
theorem reachable_step {w : Workshop} (hw : ∀ g ∈ w.graphs, g.Reachable) (s : BuildStep) :
    ∀ g ∈ (w.step s).2.graphs, g.Reachable := by
  cases s with
  | start entity =>
    unfold step
    intro g hg
    simp only at hg
    split at hg
    next h aliases hstart =>
      rcases List.mem_append.mp hg with hold | hnew
      · exact hw g hold
      · rw [List.mem_singleton.mp hnew]
        exact .start (by rw [hstart])
    next => exact hw g hg
  | project i node column output =>
    exact forall_attempt hw fun g hg => (hw g hg).project node column output
  | projectAll i node => exact forall_attempt hw fun g hg => (hw g hg).projectAll node
  | join i parent spec => exact forall_attempt hw fun g hg => (hw g hg).join w.aliases parent spec

/-- Every graph of a workshop is reachable, however the steps on its graphs interleave. -/
theorem reachable_run {w : Workshop} (hw : ∀ g ∈ w.graphs, g.Reachable) (steps : List BuildStep) :
    ∀ g ∈ (w.run steps).2.graphs, g.Reachable := by
  induction steps generalizing w with
  | nil => exact hw
  | cons s rest ih => exact ih (reachable_step hw s)

end Workshop

end Joinery
