import Joinery.Proofs.Graph.Invariant
import Joinery.Registry
import Mathlib.Data.List.Forall2
import Mathlib.Data.List.Nodup
import Mathlib.Data.List.Sort

/-!
# What the views of a graph hold

Under the invariant the views of a graph say what they seem to say. The reference at a
position is the edge at that position, and none is missing (`Inv.getElem?_links`); the
nodes in declaration order are the nodes of the arena (`Inv.placed_eq`); a node is reached
by the one reference before it (`Inv.incoming?_succ`); and a name is found in an index
exactly when a node goes by it (`Inv.nodeByRelation?_eq_some_iff`,
`Inv.nodeByAlias?_eq_some_iff`).
-/

namespace Joinery

/-- Nothing is left out where every position of a range has a value. -/
theorem getElem?_filterMap_range {α : Type} {f : Nat → Option α} {n : Nat}
    (hsome : ∀ e, e < n → (f e).isSome) (hnone : ∀ e, n ≤ e → f e = none) (e : Nat) :
    ((List.range n).filterMap f)[e]? = f e := by
  have hmap : ((List.range n).filterMap f).map some = (List.range n).map f := by
    rw [List.map_filterMap_some_eq_filter_map_isSome, List.filter_eq_self]
    intro o ho
    obtain ⟨i, hi, rfl⟩ := List.mem_map.mp ho
    exact hsome i (List.mem_range.mp hi)
  have hget := congrArg (·[e]?) hmap
  rw [List.getElem?_map, List.getElem?_map] at hget
  rcases Nat.lt_or_ge e n with hlt | hge
  · rw [List.getElem?_range hlt, Option.map_some] at hget
    obtain ⟨x, hx, hfx⟩ := Option.map_eq_some_iff.mp hget
    rw [hx, hfx]
  · have hlen : (List.range n)[e]? = none := by
      rw [List.getElem?_eq_none_iff, List.length_range]
      exact hge
    rw [hlen, Option.map_none, Option.map_eq_none_iff] at hget
    rw [hget, hnone e hge]

/-- Where two lists agree item by item, every item of the second has its partner. -/
theorem exists_of_mem_right {α β : Type} {R : α → β → Prop} {xs : List α} {ys : List β}
    (h : List.Forall₂ R xs ys) {y : β} (hy : y ∈ ys) : ∃ x ∈ xs, R x y := by
  induction h with
  | nil => exact absurd hy (by simp)
  | cons hr _ ih =>
    rcases List.mem_cons.mp hy with rfl | hrest
    · exact ⟨_, List.mem_cons_self .., hr⟩
    · obtain ⟨x, hx, hxy⟩ := ih hrest
      exact ⟨x, List.mem_cons_of_mem _ hx, hxy⟩

/-- Lists in ascending order of a key are told apart by their members. -/
theorem eq_of_ascending {α β : Type} [LT β] [Std.Asymm fun a b : β => a < b] {key : α → β}
    {first second : List α} (hfirst : first.Pairwise (key · < key ·))
    (hsecond : second.Pairwise (key · < key ·)) (h : ∀ a, a ∈ first ↔ a ∈ second) :
    first = second := by
  have _ : Std.Asymm fun a b => key a < key b := ⟨fun a b => Std.Asymm.asymm (key a) (key b)⟩
  exact hfirst.eq_of_mem_iff hsecond h

namespace JoinGraph

/-! ## References -/

structure LinkAt (g : JoinGraph) (e : Nat) (l : Link) : Prop where
  edge : l.edge = e
  child : l.child = e + 1
  parent : l.parent ≤ e
  parentNode : g.node? l.parent = some l.parentNode
  childNode : g.node? l.child = some l.childNode
  sound : g.SoundEdge e ⟨l.parent, l.child, l.reference⟩

theorem Inv.linkAt {g : JoinGraph} (h : g.Inv) {e : Nat} {l : Link} (hl : g.link? e = some l) :
    g.LinkAt e l := by
  obtain ⟨edge, n, m, he, hn, hm, rfl⟩ := link?_eq_some_iff.mp hl
  have hs := h.edges e edge he
  exact ⟨rfl, hs.target, hs.source, hn, hm, hs⟩

theorem LinkAt.length_eq {g : JoinGraph} {e : Nat} {l : Link} (h : g.LinkAt e l) :
    l.reference.declared.length = l.reference.pinned.length :=
  h.sound.length

/-- Each restriction is pinned as it was declared. -/
theorem LinkAt.pinnedAs {g : JoinGraph} {e : Nat} {l : Link} (h : g.LinkAt e l) :
    List.Forall₂ (g.PinnedAs (e + 1)) l.reference.declared l.reference.pinned :=
  List.forall₂_iff_zip.mpr ⟨h.length_eq, fun hp => h.sound.pinned _ hp⟩

/-- Only a natural join declares no restrictions. -/
theorem LinkAt.declared_ne_nil {g : JoinGraph} {e : Nat} {l : Link} (h : g.LinkAt e l)
    (hkind : l.childNode.kind ≠ .natural) : l.reference.declared ≠ [] := by
  refine h.sound.restricted l.childNode ?_ hkind
  rw [← h.child]
  exact h.childNode

theorem Inv.exists_link? {g : JoinGraph} (h : g.Inv) {e : Nat} (he : e + 1 < g.size) :
    ∃ l, g.link? e = some l := by
  have hsize := h.size
  obtain ⟨edge, hedge⟩ : ∃ edge, g.arena.edge? e = some edge :=
    ⟨_, List.getElem?_eq_getElem (by omega)⟩
  have hs := h.edges e edge hedge
  have hsource := hs.source
  have htarget := hs.target
  obtain ⟨n, hn⟩ := exists_node?_of_lt (show edge.source < g.size by omega)
  obtain ⟨m, hm⟩ := exists_node?_of_lt (show edge.target < g.size by omega)
  exact ⟨_, link?_eq_some_iff.mpr ⟨edge, n, m, hedge, hn, hm, rfl⟩⟩

/-- The child of a reference is a node of the graph. -/
theorem Inv.lt_size_of_link? {g : JoinGraph} (h : g.Inv) {e : Nat} {l : Link}
    (hl : g.link? e = some l) : e + 1 < g.size := by
  have hat := h.linkAt hl
  rw [← hat.child]
  exact lt_size_of_node? hat.childNode

/-- The references in declaration order are the edges of the arena, and none is missing. -/
theorem Inv.getElem?_links {g : JoinGraph} (h : g.Inv) (e : Nat) : g.links[e]? = g.link? e := by
  have hsize := h.size
  rw [links, h.references]
  refine getElem?_filterMap_range ?_ ?_ e
  · intro i hi
    obtain ⟨l, hl⟩ := h.exists_link? (show i + 1 < g.size by omega)
    rw [hl]
    rfl
  · intro i hi
    cases hl : g.link? i with
    | none => rfl
    | some l =>
      have hlt := h.lt_size_of_link? hl
      omega

/-- The references are those found at their edges. -/
theorem Inv.mem_links {g : JoinGraph} (h : g.Inv) {l : Link} :
    l ∈ g.links ↔ g.link? l.edge = some l := by
  constructor
  · intro hl
    obtain ⟨e, he⟩ := List.mem_iff_getElem?.mp hl
    rw [h.getElem?_links] at he
    rw [(h.linkAt he).edge]
    exact he
  · intro hl
    exact List.mem_iff_getElem?.mpr ⟨l.edge, by rw [h.getElem?_links]; exact hl⟩

theorem Inv.length_links {g : JoinGraph} (h : g.Inv) : g.links.length = g.arena.edges.length := by
  have hsize := h.size
  apply Nat.le_antisymm
  · rcases Nat.lt_or_ge g.arena.edges.length g.links.length with hlt | hge
    · have hl := h.getElem?_links g.arena.edges.length
      rw [List.getElem?_eq_getElem hlt] at hl
      have hbound := h.lt_size_of_link? hl.symm
      omega
    · exact hge
  · rcases Nat.lt_or_ge g.links.length g.arena.edges.length with hlt | hge
    · obtain ⟨l, hl⟩ := h.exists_link? (show g.links.length + 1 < g.size by omega)
      rw [← h.getElem?_links, List.getElem?_eq_none (Nat.le_refl _)] at hl
      exact absurd hl (by simp)
    · exact hge

/-- The references are listed as they were declared, and all of them have ends. -/
theorem Inv.map_edge_links {g : JoinGraph} (h : g.Inv) : g.links.map (·.edge) = g.references := by
  rw [h.references]
  apply List.ext_getElem?
  intro e
  have hsize := h.size
  rw [List.getElem?_map, h.getElem?_links]
  rcases Nat.lt_or_ge e g.arena.edges.length with hlt | hge
  · obtain ⟨l, hl⟩ := h.exists_link? (show e + 1 < g.size by omega)
    rw [hl, List.getElem?_range hlt, Option.map_some, (h.linkAt hl).edge]
  · have hnone : g.link? e = none := by
      rw [← h.getElem?_links, List.getElem?_eq_none_iff, h.length_links]
      exact hge
    rw [hnone, List.getElem?_eq_none (by rw [List.length_range]; exact hge), Option.map_none]

/-- The reference into a joined node is the one that was declared for it, the only one. -/
theorem Inv.incoming?_succ {g : JoinGraph} (h : g.Inv) (e : Nat) :
    g.incoming? (e + 1) = g.link? e := by
  cases hedge : g.arena.edge? e with
  | none =>
    have hnone : g.arena.lastInto? (e + 1) = none := by
      apply Arena.lastInto?_eq_none
      intro f edge hf htarget
      have hfe : f = e := by
        have hs := (h.edges f edge hf).target
        omega
      rw [hfe, hedge] at hf
      exact absurd hf (by simp)
    rw [incoming?, hnone, link?, hedge]
    rfl
  | some edge =>
    have hlast : g.arena.lastInto? (e + 1) = some e := by
      refine Arena.lastInto?_eq_some hedge (h.edges e edge hedge).target ?_
      intro f edge' hf htarget
      have hs := (h.edges f edge' hf).target
      omega
    rw [incoming?, hlast, Option.bind_some]

theorem Inv.incoming?_zero {g : JoinGraph} (h : g.Inv) : g.incoming? 0 = none := by
  have hnone : g.arena.lastInto? 0 = none := by
    apply Arena.lastInto?_eq_none
    intro e edge he htarget
    have hs := (h.edges e edge he).target
    omega
  rw [incoming?, hnone, Option.bind_none]

/-- The reference by which a graph grows, with its ends. -/
def newLink (g : JoinGraph) (parent : PlacedNode) (n : Node) (r : Reference) : Link :=
  ⟨g.arena.edges.length, parent.2, g.size, parent.1, n, r⟩

/-- A join adds one reference, and leaves the others with the nodes at their ends. -/
theorem Inv.link?_grown {g : JoinGraph} (h : g.Inv) {parent : PlacedNode} {n : Node}
    {r : Reference} (hparent : g.node? parent.2 = some parent.1) (e : Nat) :
    (g.grown parent.2 n r).link? e =
      if e = g.arena.edges.length then some (g.newLink parent n r) else g.link? e := by
  have hold {i : Nat} (hi : i < g.size) : (g.grown parent.2 n r).node? i = g.node? i := by
    rw [node?_grown, if_neg (Nat.ne_of_lt hi)]
  split
  next he =>
    rw [he, link?_eq_some_iff]
    refine ⟨⟨parent.2, g.size, r⟩, parent.1, n, ?_, ?_, ?_, rfl⟩
    · rw [edge?_grown, if_pos rfl]
    · rw [hold (lt_size_of_node? hparent)]
      exact hparent
    · rw [node?_grown, if_pos rfl]
  next he =>
    have hsize := h.size
    unfold link?
    rw [edge?_grown, if_neg he]
    cases hedge : g.arena.edge? e with
    | none => rfl
    | some edge =>
      have hlt : e < g.arena.edges.length := (List.getElem?_eq_some_iff.mp hedge).1
      have hs := h.edges e edge hedge
      have hsource := hs.source
      have htarget := hs.target
      simp only [Option.bind_eq_bind, Option.bind_some, hold (show edge.source < g.size by omega),
        hold (show edge.target < g.size by omega)]

/-- The references in declaration order go on with the new one. -/
theorem Inv.links_grown {g : JoinGraph} (h : g.Inv) {parent : PlacedNode} {n : Node}
    {r : Reference} (hparent : g.node? parent.2 = some parent.1) :
    (g.grown parent.2 n r).links = g.links ++ [g.newLink parent n r] := by
  show (g.references ++ [g.arena.edges.length]).filterMap (g.grown parent.2 n r).link? = _
  rw [List.filterMap_append, links]
  congr 1
  · apply List.filterMap_congr
    intro e he
    rw [h.references, List.mem_range] at he
    rw [h.link?_grown hparent, if_neg (Nat.ne_of_lt he)]
  · rw [List.filterMap_cons, h.link?_grown hparent, if_pos rfl]
    rfl

/-- The reference that a join adds is the one that leads to the new node. -/
theorem Inv.incoming?_grown {g : JoinGraph} (h : g.Inv) {parent : PlacedNode} {n : Node}
    {r : Reference} (hparent : g.node? parent.2 = some parent.1)
    (hgrown : (g.grown parent.2 n r).Inv) :
    (g.grown parent.2 n r).incoming? g.size = some (g.newLink parent n r) := by
  rw [h.size, hgrown.incoming?_succ, h.link?_grown hparent, if_pos rfl]

/-! ## Nodes -/

theorem Inv.node?_root {g : JoinGraph} (h : g.Inv) : g.node? g.root = some g.rootNode := by
  have hsize := h.size
  obtain ⟨n, hn⟩ := exists_node?_of_lt (show g.root < g.size by rw [h.root]; omega)
  rw [rootNode, hn]
  rfl

/-- The nodes in declaration order are those of the arena in the order of their positions. -/
theorem Inv.placed_eq {g : JoinGraph} (h : g.Inv) : g.placed = g.arena.placed := by
  apply List.ext_getElem?
  intro i
  have hroot := h.node?_root
  rw [h.root] at hroot
  show ((g.rootNode, g.root) :: g.joined)[i]? = (g.arena.nodes.zipIdx)[i]?
  rw [List.getElem?_zipIdx]
  rcases i with _ | e
  · show some (g.rootNode, g.root) = (g.node? 0).map fun n => (n, 0)
    rw [hroot, h.root]
    rfl
  · show (g.links.map fun l => (l.childNode, l.child))[e]? =
      (g.node? (e + 1)).map fun n => (n, 0 + (e + 1))
    rw [List.getElem?_map, h.getElem?_links, Nat.zero_add]
    cases hl : g.link? e with
    | none =>
      have hnone : g.node? (e + 1) = none := by
        cases hn : g.node? (e + 1) with
        | none => rfl
        | some n =>
          obtain ⟨l, hl'⟩ := h.exists_link? (lt_size_of_node? hn)
          rw [hl] at hl'
          exact absurd hl' (by simp)
      rw [hnone]
      rfl
    | some l =>
      have hat := h.linkAt hl
      have hchild := hat.childNode
      rw [hat.child] at hchild
      rw [hchild, Option.map_some, Option.map_some, hat.child]

theorem Inv.getElem?_placed {g : JoinGraph} (h : g.Inv) (i : Nat) :
    g.placed[i]? = (g.node? i).map fun n => (n, i) := by
  rw [h.placed_eq]
  show (g.arena.nodes.zipIdx)[i]? = g.arena.nodes[i]?.map fun n => (n, i)
  rw [List.getElem?_zipIdx, Nat.zero_add]

/-- The nodes stand in the order of their positions, and none is left out. -/
theorem Inv.map_snd_placed {g : JoinGraph} (h : g.Inv) : g.placed.map (·.2) = List.range g.size := by
  rw [h.placed_eq]
  show g.arena.nodes.zipIdx.map Prod.snd = List.range g.arena.nodes.length
  rw [List.zipIdx_map_snd, List.range_eq_range']

theorem Inv.length_placed {g : JoinGraph} (h : g.Inv) : g.placed.length = g.size := by
  rw [h.placed_eq]
  exact List.length_zipIdx

/-- The nodes listed are those that the graph has. -/
theorem Inv.mem_placed {g : JoinGraph} (h : g.Inv) {p : PlacedNode} :
    p ∈ g.placed ↔ g.node? p.2 = some p.1 := by
  rw [h.placed_eq]
  exact Arena.mem_placed

/-- What stands before a node on the walk is what has a lower position. -/
theorem Inv.of_placed_eq_append {g : JoinGraph} (h : g.Inv) {before after : List PlacedNode}
    {p : PlacedNode} (hp : g.placed = before ++ p :: after) :
    g.node? p.2 = some p.1 ∧ ∀ j m, j < p.2 → g.node? j = some m → (m, j) ∈ before := by
  have hnode := h.mem_placed.mp (hp ▸ List.mem_append_right before (List.mem_cons_self ..))
  have hself := h.getElem?_placed before.length
  rw [hp, List.getElem?_append_right (Nat.le_refl _), Nat.sub_self, List.getElem?_cons_zero] at hself
  obtain ⟨_, _, heq⟩ := Option.map_eq_some_iff.mp hself.symm
  have hlength : before.length = p.2 := congrArg Prod.snd heq
  refine ⟨hnode, fun j m hj hm => ?_⟩
  have hat := h.getElem?_placed j
  rw [hp, List.getElem?_append_left (by omega), hm] at hat
  exact List.mem_of_getElem? hat

theorem Inv.joined_eq {g : JoinGraph} (h : g.Inv) : g.joined = g.arena.placed.tail := by
  rw [← h.placed_eq]
  rfl

/-- The joined nodes are those not at the root's position. -/
theorem Inv.mem_joined {g : JoinGraph} (h : g.Inv) {p : PlacedNode} :
    p ∈ g.joined ↔ p.2 ≠ 0 ∧ g.node? p.2 = some p.1 := by
  constructor
  · intro hp
    obtain ⟨l, hl, rfl⟩ := List.mem_map.mp hp
    have hat := h.linkAt (h.mem_links.mp hl)
    refine ⟨?_, hat.childNode⟩
    have hchild := hat.child
    show l.child ≠ 0
    omega
  · intro ⟨hne, hn⟩
    rcases List.mem_cons.mp (h.mem_placed.mpr hn) with heq | hp
    · rw [heq] at hne
      exact absurd h.root hne
    · exact hp

/-! ## Names -/

theorem mem_listing {name : Node → String} {placed : List PlacedNode} {s : String} {i : Nat} :
    (s, i) ∈ listing name placed ↔ ∃ n, (n, i) ∈ placed ∧ name n = s := by
  rw [listing, List.mem_reverse, List.mem_map]
  constructor
  · intro hex
    obtain ⟨⟨n, j⟩, hp, heq⟩ := hex
    obtain ⟨rfl, rfl⟩ := Prod.mk.injEq .. ▸ heq
    exact ⟨n, hp, rfl⟩
  · intro hex
    obtain ⟨n, hp, rfl⟩ := hex
    exact ⟨(n, i), hp, rfl⟩

theorem pairwise_placed (g : JoinGraph) :
    g.arena.placed.Pairwise fun p q : PlacedNode => p.2 < q.2 := by
  have hpositions : (g.arena.placed.map (·.2)).Pairwise (· < ·) := by
    show (g.arena.nodes.zipIdx.map Prod.snd).Pairwise (· < ·)
    rw [List.zipIdx_map_snd]
    exact List.pairwise_lt_range'
  exact List.pairwise_map.mp hpositions

/-- An index of nodes leads to the last one with a name. -/
theorem last_of_lookup_listing {name : Node → String} {placed : List PlacedNode}
    (hplaced : placed.Pairwise (·.2 < ·.2)) {text : String} {i : Nat}
    (h : (listing name placed).lookup text = some i) :
    ∃ n, (n, i) ∈ placed ∧ name n = text ∧ ∀ q ∈ placed, name q.1 = text → q.2 ≤ i := by
  obtain ⟨n, hn, hname⟩ := mem_listing.mp (mem_of_lookup_eq_some h)
  refine ⟨n, hn, hname, ?_⟩
  rintro ⟨m, j⟩ hm rfl
  obtain ⟨newer, older, heq, hnewer⟩ := List.lookup_eq_some_iff.mp h
  -- the index is in descending order of the positions
  have hdescending : (listing name placed).Pairwise fun a b => b.2 < a.2 := by
    rw [listing, List.pairwise_reverse, List.pairwise_map]
    exact hplaced
  have hentry : (name m, j) ∈ listing name placed := mem_listing.mpr ⟨m, hm, rfl⟩
  rw [heq, List.pairwise_append, List.pairwise_cons] at hdescending
  rw [heq, List.mem_append, List.mem_cons] at hentry
  rcases hentry with hin | hin | hin
  · exact absurd rfl (bne_iff_ne.mp (hnewer _ hin))
  · exact Nat.le_of_eq (Prod.ext_iff.mp hin).2
  · exact Nat.le_of_lt (hdescending.2.1.1 _ hin)

theorem map_fst_listing (name : Node → String) (placed : List PlacedNode) :
    (listing name placed).map (·.1) = (placed.map fun p => name p.1).reverse := by
  rw [listing, List.map_reverse, List.map_map]
  rfl

/-- No relation is given twice. -/
theorem Inv.nodup_relations {g : JoinGraph} (h : g.Inv) :
    (g.joined.map (·.1.relation)).Nodup := by
  have hn := h.relations
  rw [h.relationIndex, map_fst_listing, ← h.joined_eq] at hn
  exact List.nodup_reverse.mp hn

/-- The index of relations has the joined nodes under their relations. -/
theorem Inv.nodeByRelation?_eq_some_iff {g : JoinGraph} (h : g.Inv) {name : String} {i : Nat} :
    g.nodeByRelation? name = some i ↔ ∃ n, (n, i) ∈ g.joined ∧ n.relation = name := by
  rw [nodeByRelation?, lookup_eq_some_iff_mem h.relations, h.relationIndex, mem_listing,
    ← h.joined_eq]

/-- The aliases of a graph's nodes, in their order. -/
def tableAliases (g : JoinGraph) : List String :=
  g.placed.map (·.1.tableAlias)

/-- The index of aliases has a name unless no node has that alias. -/
theorem Inv.nodeByAlias?_eq_none_iff {g : JoinGraph} (h : g.Inv) {name : String} :
    g.nodeByAlias? name = none ↔ name ∉ g.tableAliases := by
  have hnames : name ∈ g.tableAliases ↔ name ∈ g.aliasIndex.map (·.1) := by
    rw [h.aliasIndex, map_fst_listing, List.mem_reverse, ← h.placed_eq]
    rfl
  rw [nodeByAlias?, List.lookup_eq_none_iff, hnames, List.mem_map]
  constructor
  · intro hall hmem
    obtain ⟨entry, hentry, hname⟩ := hmem
    exact bne_iff_ne.mp (hall entry hentry) hname.symm
  · intro hnone entry hentry
    exact bne_iff_ne.mpr fun hname => hnone ⟨entry, hentry, hname.symm⟩

/-- The alias index leads to the last node with an alias. -/
theorem Inv.last_of_nodeByAlias? {g : JoinGraph} (h : g.Inv) {name : String} {i : Nat}
    (hi : g.nodeByAlias? name = some i) :
    ∃ n, g.node? i = some n ∧ n.tableAlias = name ∧
      ∀ q : PlacedNode, g.node? q.2 = some q.1 → q.1.tableAlias = name → q.2 ≤ i := by
  rw [nodeByAlias?, h.aliasIndex] at hi
  obtain ⟨n, hn, hname, hlast⟩ := last_of_lookup_listing g.pairwise_placed hi
  exact ⟨n, Arena.mem_placed.mp hn, hname, fun q hq => hlast q (Arena.mem_placed.mpr hq)⟩

/-- No two nodes of the graph share an alias. -/
def DistinctAliases (g : JoinGraph) : Prop :=
  (g.placed.map (·.1.tableAlias)).Nodup

instance (g : JoinGraph) : Decidable g.DistinctAliases :=
  inferInstanceAs (Decidable (List.Nodup _))

/-- Where aliases are distinct, the index has each node under its own. -/
theorem Inv.nodeByAlias?_eq_some_iff {g : JoinGraph} (h : g.Inv) (hd : g.DistinctAliases)
    {name : String} {i : Nat} :
    g.nodeByAlias? name = some i ↔ ∃ n, g.node? i = some n ∧ n.tableAlias = name := by
  have hnodup : (g.aliasIndex.map (·.1)).Nodup := by
    rw [h.aliasIndex, map_fst_listing, ← h.placed_eq]
    exact List.nodup_reverse.mpr hd
  rw [nodeByAlias?, lookup_eq_some_iff_mem hnodup, h.aliasIndex, mem_listing]
  constructor
  · intro hex
    obtain ⟨n, hn, rfl⟩ := hex
    exact ⟨n, Arena.mem_placed.mp hn, rfl⟩
  · intro hex
    obtain ⟨n, hn, rfl⟩ := hex
    exact ⟨n, Arena.mem_placed.mpr hn, rfl⟩

end JoinGraph

end Joinery
