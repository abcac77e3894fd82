import Joinery.Compiler
import Joinery.Key
import Joinery.Proofs.Graph.Coherence

/-!
# Growing keeps what is there

Whatever is read off a graph is read off its nodes and references in declaration order, and a
join adds one of each behind all others (`Inv.placed_grown`, `Inv.links_grown`). In a projection
and in a key the first to claim a name keeps it, so the new node and the new reference only get
the names that nobody had (`Inv.get?_projection_grown`, `Inv.mem_key_grown_iff`). Joins are
compiled one by one, and the condition of each speaks of nodes that were there when it was
declared (`Inv.condition_grown`).

`grows_of_join` puts these together for every join that succeeds, wherever in the tree its parent
stands.

What is read off a graph are `JoinGraph.projection`, `JoinGraph.key` and `Compiler.compile`; the
step is `JoinGraph.join`.
-/

namespace Joinery

namespace JoinGraph

/-! ## Nodes and what they show -/

theorem Inv.rootNode_grown {g : JoinGraph} (h : g.Inv) (parent : Nat) (n : Node) (r : Reference) :
    (g.grown parent n r).rootNode = g.rootNode := by
  have hroot := lt_size_of_node? h.node?_root
  show ((g.grown parent n r).node? g.root).getD default = (g.node? g.root).getD default
  rw [node?_grown, if_neg (Nat.ne_of_lt hroot)]

/-- The nodes in declaration order go on with the new one. -/
theorem Inv.placed_grown {g : JoinGraph} (h : g.Inv) {parent : PlacedNode} {n : Node}
    {r : Reference} (hparent : g.node? parent.2 = some parent.1) :
    (g.grown parent.2 n r).placed = g.placed ++ [(n, g.size)] := by
  rw [placed, joined, h.links_grown hparent, List.map_append, h.rootNode_grown]
  rfl

/-- The output names that nobody had go to the new node. -/
theorem Inv.get?_projection_grown {g : JoinGraph} (h : g.Inv) {parent : PlacedNode} {n : Node}
    {r : Reference} (hparent : g.node? parent.2 = some parent.1) (output : String) :
    (g.grown parent.2 n r).projection.get? output =
      (g.projection.get? output).or ((shownBy (n, g.size)).find? (·.output == output)) := by
  rw [projection, projection, Projection.get?_ofColumns, Projection.get?_ofColumns, shown,
    h.placed_grown hparent, List.flatMap_append, List.find?_append, List.flatMap_singleton]
  rfl

theorem node_of_mem_shownBy {p : PlacedNode} {c : ProjectedColumn} (hc : c ∈ shownBy p) :
    c.node = p.2 := by
  obtain ⟨_, _, rfl⟩ := List.mem_map.mp hc
  rfl

/-! ## Joins -/

/-- A pinned column is written as before, since its node was there. -/
theorem columnExpr?_grown {g : JoinGraph} (parent : Nat) (n : Node) (r : Reference) {last : Nat}
    {c : PinnedColumn} (hc : g.Owns last c) :
    Compiler.columnExpr? (g.grown parent n r) c = Compiler.columnExpr? g c := by
  obtain ⟨_, m, hm, _⟩ := hc
  have hlt := lt_size_of_node? hm
  rw [Compiler.columnExpr?, Compiler.columnExpr?, node?_grown, if_neg (Nat.ne_of_lt hlt)]

theorem Inv.condition_grown {g : JoinGraph} (h : g.Inv) (c : Compiler) (parent : Nat) (n : Node)
    (r : Reference) {l : Link} (hl : l ∈ g.links) :
    c.condition (g.grown parent n r) l = c.condition g l := by
  have hat := h.linkAt (h.mem_links.mp hl)
  have hpredicates : l.reference.pinned.filterMap (c.predicate? (g.grown parent n r)) =
      l.reference.pinned.filterMap (c.predicate? g) := by
    apply List.filterMap_congr
    intro p hp
    obtain ⟨d, _, hpinned⟩ := exists_of_mem_right hat.pinnedAs hp
    rw [Compiler.predicate?, Compiler.predicate?, columnExpr?_grown parent n r hpinned.localOwned,
      columnExpr?_grown parent n r hpinned.remoteOwned]
  rw [Compiler.condition, Compiler.condition, hpredicates]

/-- What is compiled goes on with one join, whatever columns are shown. -/
theorem Inv.queryOf_grown {g : JoinGraph} (h : g.Inv) (c : Compiler) {parent : PlacedNode}
    {n : Node} {r : Reference} (hparent : g.node? parent.2 = some parent.1)
    (p p' : Projection) :
    (c.queryOf (g.grown parent.2 n r) p').source = (c.queryOf g p).source ∧
      (c.queryOf (g.grown parent.2 n r) p').joins = (c.queryOf g p).joins ++
        [c.joinOf (g.grown parent.2 n r) (g.newLink parent n r)] := by
  have hjoins : g.links.map (c.joinOf (g.grown parent.2 n r)) = g.links.map (c.joinOf g) := by
    apply List.map_congr_left
    intro l hl
    rw [Compiler.joinOf, Compiler.joinOf, h.condition_grown c parent.2 n r hl]
  constructor
  · rw [Compiler.queryOf, h.rootNode_grown]
    rfl
  · rw [Compiler.queryOf, h.links_grown hparent, List.map_append, hjoins]
    rfl

/-- A dialect that has the joins of a graph needs to have only the new one as well. -/
theorem Inv.supports_grown_iff {g : JoinGraph} (h : g.Inv) (c : Compiler) {parent : PlacedNode}
    {n : Node} {r : Reference} (hparent : g.node? parent.2 = some parent.1) :
    (∀ l ∈ (g.grown parent.2 n r).links, c.supports l.childNode.kind) ↔
      (∀ l ∈ g.links, c.supports l.childNode.kind) ∧ c.supports n.kind := by
  rw [h.links_grown hparent, List.forall_mem_append, List.forall_mem_singleton]
  rfl

/-! ## The key -/

/-- The names that no reference contributed go to the new one. -/
theorem Inv.mem_key_grown_iff {g : JoinGraph} (h : g.Inv) {parent : PlacedNode} {n : Node}
    {r : Reference} (hparent : g.node? parent.2 = some parent.1) (hne : g.references ≠ [])
    {k : KeyColumn} :
    k ∈ (g.grown parent.2 n r).key ↔
      k ∈ g.key ∨ (g.links.flatMap Link.keyColumns).find? (·.name == k.name) = none ∧
        (g.newLink parent n r).keyColumns.find? (·.name == k.name) = some k := by
  have hgrown : (g.grown parent.2 n r).references ≠ [] :=
    List.append_ne_nil_of_left_ne_nil hne _
  rw [mem_key_iff hgrown, mem_key_iff hne, h.links_grown hparent, List.flatMap_append,
    List.find?_append, List.flatMap_singleton, Option.or_eq_some_iff]

/-! ## The graph after a join -/

/-- A graph that has grown by a reference and the node it leads to, beside the graph as it was. -/
structure GrowsBy (g h : JoinGraph) (l : Link) : Prop where
  -- the nodes and the references go on with the new one
  nodes : h.placed = g.placed ++ [(l.childNode, l.child)]
  links : h.links = g.links ++ [l]
  -- an output keeps its source, and one that is added is a column of the new node
  outputs : ∀ output c, g.projection.get? output = some c → h.projection.get? output = some c
  addedOutputs : ∀ output c, h.projection.get? output = some c →
    g.projection.get? output = none → c.node = l.child
  -- the query starts where it did and makes the joins that it made, then the new one; so it is
  -- for the columns of the graph and for any others
  joins : ∀ (c : Compiler) p q p' q', c.compileWith g p = .ok q → c.compileWith h p' = .ok q' →
    q'.source = q.source ∧ q'.joins = q.joins ++ [c.joinOf h l]
  -- what compiled still does if the dialect has the new join, and otherwise fails for that join
  compiles : ∀ (c : Compiler) q, c.compile g = .ok q →
    if c.supports l.childNode.kind then ∃ q', c.compile h = .ok q'
    else c.compile h =
      .error (.unsupportedJoin c.dialect l.childNode.kind l.childNode.entity.table)
  -- a column of the key stays with its owner and its reference, and one that is added comes from
  -- the new reference
  key : g.references ≠ [] → ∀ k ∈ g.key, k ∈ h.key
  addedKey : g.references ≠ [] → ∀ k ∈ h.key, k ∉ g.key →
    k.name ∉ g.keyNames ∧ k.reference = some l.edge

/-- A graph that compiles still does after a join, unless the dialect lacks joins of its kind. -/
theorem Inv.compile_grown {g : JoinGraph} (h : g.Inv) (c : Compiler) {parent : PlacedNode}
    {n : Node} {r : Reference} (hparent : g.node? parent.2 = some parent.1) {q : Query}
    (hq : c.compile g = .ok q) :
    if c.supports n.kind then ∃ q', c.compile (g.grown parent.2 n r) = .ok q'
    else c.compile (g.grown parent.2 n r) =
      .error (.unsupportedJoin c.dialect n.kind n.entity.table) := by
  obtain ⟨hshown, hsupports, _⟩ := Compiler.compileWith_eq_ok_iff.mp hq
  have hfilled : (g.grown parent.2 n r).projection.isEmpty = false := by
    rw [← Bool.not_eq_true, projection, Projection.ofColumns, Registry.isEmpty_ofList,
      List.map_eq_nil_iff] at hshown ⊢
    rw [shown, h.placed_grown hparent, List.flatMap_append]
    exact List.append_ne_nil_of_left_ne_nil hshown _
  split
  next hkind =>
    exact ⟨_, Compiler.compileWith_eq_ok_iff.mpr
      ⟨hfilled, (h.supports_grown_iff c hparent).mpr ⟨hsupports, hkind⟩, rfl⟩⟩
  next hkind =>
    refine Compiler.compileWith_eq_error_iff.mpr (.inr ⟨hfilled, g.newLink parent n r, ?_, rfl⟩)
    rw [Compiler.unsupported?, h.links_grown hparent, List.find?_append,
      show g.links.find? _ = none from Compiler.unsupported?_eq_none_iff.mpr hsupports,
      Option.none_or, List.find?_cons_of_pos]
    rw [Bool.not_eq_true] at hkind
    show (!c.supports n.kind) = true
    rw [hkind]
    rfl

/-- Growing a graph adds to everything that is read off it and takes nothing away. -/
theorem Inv.growsBy_grown {g : JoinGraph} (h : g.Inv) {parent : PlacedNode} {n : Node}
    {r : Reference} (hparent : g.node? parent.2 = some parent.1) :
    g.GrowsBy (g.grown parent.2 n r) (g.newLink parent n r) where
  nodes := h.placed_grown hparent
  links := h.links_grown hparent
  outputs := by
    intro output c hc
    rw [h.get?_projection_grown hparent, hc]
    rfl
  addedOutputs := by
    intro output c hc hnone
    rw [h.get?_projection_grown hparent, hnone, Option.none_or] at hc
    exact node_of_mem_shownBy (List.mem_of_find?_eq_some hc)
  joins := by
    intro c p q p' q' hq hq'
    obtain ⟨_, _, rfl⟩ := Compiler.compileWith_eq_ok_iff.mp hq
    obtain ⟨_, _, rfl⟩ := Compiler.compileWith_eq_ok_iff.mp hq'
    exact h.queryOf_grown c hparent p p'
  compiles := fun c q hq => h.compile_grown c hparent hq
  key := fun hne k hk => (h.mem_key_grown_iff hparent hne).mpr (.inl hk)
  addedKey := by
    intro hne k hk hnew
    obtain ⟨hfree, hadded⟩ := ((h.mem_key_grown_iff hparent hne).mp hk).resolve_left hnew
    refine ⟨?_, reference_of_mem_keyColumns (List.mem_of_find?_eq_some hadded)⟩
    intro hname
    obtain ⟨old, hold, hname⟩ := List.mem_map.mp hname
    rw [mem_key_iff hne, hname, hfree] at hold
    exact nomatch hold

/-- A join that succeeds rewrites nothing: whatever the graph was and whichever node of it is the
parent, the graph grows by a reference from that parent to the node that the join answers with. -/
theorem grows_of_join {g : JoinGraph} (h : g.Reachable) {aliases : AliasIssuer} {parent i : Nat}
    {spec : JoinSpec} (hok : (g.join aliases parent spec).1.outcome = .ok i) :
    ∃ l, (g.join aliases parent spec).1.graph.incoming? i = some l ∧
      l.parent = parent ∧ l.child = i ∧
      l.childNode = spec.toNode (aliases.next spec.entity.table .joined).1 ∧
      l.reference.declared = spec.restrictions ∧
      g.GrowsBy (g.join aliases parent spec).1.graph l := by
  have hinv := (Reachable.join aliases parent spec h).inv
  rcases join_of_inv h.inv aliases parent spec with
    ⟨e, hjoin⟩ | ⟨p, n, pinned, hp, rfl, _, hjoin⟩
  · rw [hjoin] at hok
    exact nomatch hok
  · rw [hjoin] at hok hinv ⊢
    obtain ⟨hposition, hpos, _⟩ := checkJoin_eq_ok_iff.mp hp
    rw [← hpos] at hposition
    have hi : g.size = i := Except.ok.inj hok
    refine ⟨_, ?_, hpos, hi, rfl, rfl, h.inv.growsBy_grown hposition⟩
    rw [← hi]
    exact h.inv.incoming?_grown hposition hinv

end JoinGraph

namespace Warehouse

/-- The widgets once more, under themselves. Two of their outputs are taken, and so is one of the
names that they share for the key. -/
def twins : JoinSpec :=
  { entity := widgets, kind := .natural
    projection := [("id", "widget"), ("part_id", "detail"), ("name", "twin")] }

/-- Widgets joined under themselves give the key two more names, and it keeps what it had. -/
theorem grows_twins :
    graph.Reachable ∧ (graph.join .standard 0 twins).1.outcome = .ok 3 ∧
      ∃ l, (graph.join .standard 0 twins).1.graph.incoming? 3 = some l ∧ l.parent = 0 ∧
        graph.GrowsBy (graph.join .standard 0 twins).1.graph l := by
  have hok : (graph.join .standard 0 twins).1.outcome = .ok 3 := by decide +kernel
  obtain ⟨l, hl, hparent, _, _, _, hgrows⟩ := JoinGraph.grows_of_join reachable_graph hok
  exact ⟨reachable_graph, hok, l, hl, hparent, hgrows⟩

-- the shared name that a reference had contributed stays with it, the others go to the new one
example : graph.keyNames = ["id", "part", "text"] ∧
    (graph.join .standard 0 twins).1.graph.key.map (fun k => (k.name, k.reference)) =
      [("id", some 0), ("name", some 2), ("part", some 1), ("part_id", some 2),
        ("text", some 1)] := by
  decide +kernel

end Warehouse

end Joinery
