import Joinery.Proofs.Graph.Coherence
import Joinery.Proofs.View.Relations

/-!
# The names of a view and of its graph

A view and its graph both lead from names to nodes. To the graph an alias goes before a relation
name, and the root has an alias like any node; in a view the root is no relation, and the two names
of a joined node count the same. A relation name that is the alias of a joined node could lead to
two nodes, but a graph with one has no view. So the two agree on every relation but one
(`agreesOnNames_of_create`): a relation name that is the alias of the root leads the view to the
joined node and the graph to the root (`not_forall_nodeByName?`).

The names are those of `View.relations` and of `JoinGraph.nodeByRelation?` and `nodeByAlias?`.
-/

namespace Joinery

/-- Where no two items share a key, an item is the only one with its key. -/
theorem filter_eq_singleton_of_nodup {α : Type} {key : α → String} {items : List α}
    (hnodup : (items.map key).Nodup) {a : α} (ha : a ∈ items) :
    items.filter (key · == key a) = [a] := by
  induction items with
  | nil => exact nomatch ha
  | cons b items ih =>
    rw [List.map_cons, List.nodup_cons] at hnodup
    rcases List.mem_cons.mp ha with rfl | hrest
    · rw [List.filter_cons_of_pos (by simp), List.filter_eq_nil_iff.mpr]
      intro c hc hkey
      exact hnodup.1 (List.mem_map.mpr ⟨c, hc, beq_iff_eq.mp hkey⟩)
    · rw [List.filter_cons_of_neg, ih hnodup.2 hrest]
      intro hkey
      exact hnodup.1 (List.mem_map.mpr ⟨a, hrest, (beq_iff_eq.mp hkey).symm⟩)

namespace JoinGraph

/-! ## What the graph makes of a name -/

/-- The node that the graph has for a name: the one with that alias, else the one with that
relation name. -/
def nodeByName? (g : JoinGraph) (name : String) : Option Nat :=
  (g.nodeByAlias? name).or (g.nodeByRelation? name)

/-- The index of relation names and the search for a relation name find the same node. -/
theorem Inv.byRelation?_of_mem_joined {g : JoinGraph} (h : g.Inv) {p : PlacedNode}
    (hp : p ∈ g.joined) : g.byRelation? p.1.relation = some p := by
  have honly : g.joined.filter (·.1.relation == p.1.relation) = [p] :=
    filter_eq_singleton_of_nodup h.nodup_relations hp
  rw [byRelation?_eq_some_iff, those, ← h.placed_eq, placed, List.filter_cons_of_neg (by simp),
    ← honly]
  apply List.filter_congr
  intro q hq
  rw [h.root, bne_iff_ne.mpr (h.mem_joined.mp hq).1, Bool.true_and]

/-- A qualifier is such a name. -/
theorem Inv.named_of_nodeByName? {g : JoinGraph} (h : g.Inv) (hd : g.DistinctAliases)
    {name : String} {i : Nat} (hi : g.nodeByName? name = some i) (spec : ColumnSpec) :
    ∃ n, g.node? i = some n ∧ g.named name spec = .ok (n, i) := by
  rcases Option.or_eq_some_iff.mp hi with halias | ⟨hfree, hrelation⟩
  · obtain ⟨n, hn, _⟩ := (h.nodeByAlias?_eq_some_iff hd).mp halias
    refine ⟨n, hn, named_eq_ok_iff.mpr (.inl ?_)⟩
    rw [byAlias?, show g.indexed? name = some (n, i) from indexed?_eq_some_iff.mpr ⟨halias, hn⟩]
    rfl
  · obtain ⟨n, hn, rfl⟩ := h.nodeByRelation?_eq_some_iff.mp hrelation
    refine ⟨n, (h.mem_joined.mp hn).2, named_eq_ok_iff.mpr (.inr (.inl ⟨?_, ?_⟩))⟩
    · rw [byAlias?, indexed?, hfree, Option.bind_none, Option.none_or, List.find?_eq_none]
      intro p hp halias
      rw [← h.placed_eq] at hp
      exact h.nodeByAlias?_eq_none_iff.mp hfree (List.mem_map.mpr ⟨p, hp, beq_iff_eq.mp halias⟩)
    · exact h.byRelation?_of_mem_joined hn

theorem Inv.nodeByName?_tableAlias {g : JoinGraph} (h : g.Inv) (hd : g.DistinctAliases)
    {p : PlacedNode} (hp : p ∈ g.placed) : g.nodeByName? p.1.tableAlias = some p.2 := by
  rw [nodeByName?,
    (h.nodeByAlias?_eq_some_iff hd).mpr ⟨p.1, h.mem_placed.mp hp, rfl⟩, Option.some_or]

/-- A relation name leads to its node unless an alias goes before it. -/
theorem Inv.nodeByName?_relation {g : JoinGraph} (h : g.Inv) {p : PlacedNode}
    (hp : p ∈ g.joined) (hfree : p.1.relation ∉ g.tableAliases) :
    g.nodeByName? p.1.relation = some p.2 := by
  rw [nodeByName?, h.nodeByAlias?_eq_none_iff.mpr hfree, Option.none_or]
  exact h.nodeByRelation?_eq_some_iff.mpr ⟨p.1, hp, rfl⟩

/-- In a graph that has a view, that alias can only be the one of the root. -/
theorem NamesApart.relation_notMem {g : JoinGraph} (h : g.NamesApart) {p : PlacedNode}
    (hp : p ∈ g.joined) (hroot : p.1.relation ≠ g.rootNode.tableAlias) :
    p.1.relation ∉ g.tableAliases := by
  rintro hmem
  rcases List.mem_cons.mp hmem with heq | hjoined
  · exact hroot heq
  · obtain ⟨q, hq, hname⟩ := List.mem_map.mp hjoined
    exact h p hp q hq hname.symm

/-- No joined node has the alias of the root. -/
theorem tableAlias_ne_root {g : JoinGraph} (hd : g.DistinctAliases) {p : PlacedNode}
    (hp : p ∈ g.joined) : p.1.tableAlias ≠ g.rootNode.tableAlias :=
  fun heq => (List.nodup_cons.mp hd).1 (List.mem_map.mpr ⟨p, hp, heq⟩)

end JoinGraph

namespace View

/-! ## What the view makes of it -/

/-- The relations of a graph are the two names of each joined node, for the reference that leads
to it. -/
theorem get?_accessorsOf_iff_joined {g : JoinGraph} (h : g.Inv) {relations : Registry Accessor}
    (hrelations : accessorsOf g = .ok relations) {name : String} {a : Accessor} :
    relations.get? name = some a ↔
      ∃ p ∈ g.joined, (name = p.1.relation ∨ name = p.1.tableAlias) ∧
        ∃ l, g.incoming? p.2 = some l ∧ a = .ofLink l ∧ a.target = p.2 := by
  rw [get?_accessorsOf_iff hrelations, List.mem_flatMap]
  constructor
  · rintro ⟨l, hl, hname⟩
    have hlink := h.mem_links.mp hl
    refine ⟨(l.childNode, l.child), List.mem_map.mpr ⟨l, hl, rfl⟩, ?_, l, ?_, ?_⟩
    · simp only [accessNames, List.mem_cons, List.not_mem_nil, Prod.mk.injEq] at hname
      exact hname.imp (·.1) fun hrest => (hrest.resolve_right id).1
    · show g.incoming? l.child = some l
      rw [(h.linkAt hlink).child, h.incoming?_succ, hlink]
    · simp only [accessNames, List.mem_cons, List.not_mem_nil, Prod.mk.injEq] at hname
      have ha : a = .ofLink l := hname.elim (·.2) fun hrest => (hrest.resolve_right id).2
      rw [ha, Accessor.target_ofLink]
      exact ⟨rfl, rfl⟩
  · rintro ⟨p, hp, hname, l, hl, rfl, htarget⟩
    obtain ⟨m, hm, rfl⟩ := List.mem_map.mp hp
    have hlink := h.mem_links.mp hm
    rw [(h.linkAt hlink).child, h.incoming?_succ, hlink, Option.some.injEq] at hl
    subst hl
    exact ⟨m, hm, by rcases hname with rfl | rfl <;> simp [accessNames]⟩

/-- What the relations of a view have to do with the names of its graph. -/
structure AgreesOnNames (v : View) : Prop where
  -- the relations are the names of the joined nodes
  relations : ∀ name, (v.relations.get? name).isSome ↔
    ∃ p ∈ v.graph.joined, name = p.1.relation ∨ name = p.1.tableAlias
  -- either name of a joined node leads to it
  names : ∀ p ∈ v.graph.joined, ∃ a, v.relations.get? p.1.relation = some a ∧
    v.relations.get? p.1.tableAlias = some a ∧ a.target = p.2
  -- by the reference that joins it to its parent
  reference : ∀ name a, v.relations.get? name = some a →
    ∃ l, v.graph.incoming? a.target = some l ∧ a = .ofLink l ∧ a.reference = l.edge
  -- the graph leads to the same node, unless the name is the alias of the root
  target : ∀ name a, v.relations.get? name = some a →
    (v.graph.nodeByName? name = some a.target ↔ name ≠ v.graph.rootNode.tableAlias)
  -- and so does the name as a qualifier
  qualifier : ∀ name a, v.relations.get? name = some a → name ≠ v.graph.rootNode.tableAlias →
    ∀ spec, ∃ n, v.graph.node? a.target = some n ∧ v.graph.named name spec = .ok (n, a.target)
  -- to that name the graph has the root, and the view the node with that relation name
  root : ∀ a, v.relations.get? v.graph.rootNode.tableAlias = some a →
    v.graph.nodeByName? v.graph.rootNode.tableAlias = some v.graph.root ∧
      v.graph.nodeByRelation? v.graph.rootNode.tableAlias = some a.target

/-- The node of a relation is the one that the graph has for its name, unless that is the alias of
the root. -/
theorem nodeByName?_eq_target {g : JoinGraph} (h : g.Inv) (hd : g.DistinctAliases)
    {relations : Registry Accessor} (hrelations : accessorsOf g = .ok relations) {name : String}
    {a : Accessor} (ha : relations.get? name = some a) (hne : name ≠ g.rootNode.tableAlias) :
    g.nodeByName? name = some a.target := by
  have hapart : g.NamesApart :=
    (h.accessorsOf_isOk_iff_namesApart hd).mp (by rw [hrelations]; rfl)
  obtain ⟨p, hp, hname, _, _, _, htarget⟩ := (get?_accessorsOf_iff_joined h hrelations).mp ha
  rw [htarget]
  rcases hname with rfl | rfl
  · exact h.nodeByName?_relation hp (hapart.relation_notMem hp hne)
  · exact h.nodeByName?_tableAlias hd (List.mem_cons_of_mem _ hp)

theorem agreesOnNames_of_accessorsOf {v : View} (h : v.graph.Inv) (hd : v.graph.DistinctAliases)
    (hrelations : accessorsOf v.graph = .ok v.relations) : v.AgreesOnNames := by
  have hiff {name : String} {a : Accessor} :=
    @get?_accessorsOf_iff_joined v.graph h v.relations hrelations name a
  have hroot : v.graph.nodeByName? v.graph.rootNode.tableAlias = some v.graph.root :=
    h.nodeByName?_tableAlias hd (p := (v.graph.rootNode, v.graph.root)) (List.mem_cons_self ..)
  have hnames : ∀ p ∈ v.graph.joined, ∃ a, v.relations.get? p.1.relation = some a ∧
      v.relations.get? p.1.tableAlias = some a ∧ a.target = p.2 := by
    intro p hp
    obtain ⟨l, hl, rfl⟩ := List.mem_map.mp hp
    obtain ⟨hrelation, halias⟩ := get?_of_link hrelations hl
    exact ⟨_, hrelation, halias, Accessor.target_ofLink l⟩
  refine {
    relations := ?_
    names := hnames
    reference := ?_
    target := ?_
    qualifier := fun name a ha hne spec =>
      h.named_of_nodeByName? hd (nodeByName?_eq_target h hd hrelations ha hne) spec
    root := fun a ha => ⟨hroot, ?_⟩ }
  · intro name
    rw [Option.isSome_iff_exists]
    constructor
    · rintro ⟨a, ha⟩
      obtain ⟨p, hp, hname, _⟩ := hiff.mp ha
      exact ⟨p, hp, hname⟩
    · rintro ⟨p, hp, hname⟩
      obtain ⟨a, hrelation, halias, _⟩ := hnames p hp
      rcases hname with rfl | rfl
      · exact ⟨a, hrelation⟩
      · exact ⟨a, halias⟩
  · intro name a ha
    obtain ⟨p, _, _, l, hl, rfl, htarget⟩ := hiff.mp ha
    exact ⟨l, by rw [htarget, hl], rfl, Accessor.reference_ofLink l⟩
  · intro name a ha
    refine ⟨?_, nodeByName?_eq_target h hd hrelations ha⟩
    rintro hname rfl
    obtain ⟨p, hp, _, _, _, _, htarget⟩ := hiff.mp ha
    rw [hroot, htarget, Option.some.injEq, h.root] at hname
    exact (h.mem_joined.mp hp).1 hname.symm
  · obtain ⟨p, hp, hname, _, _, _, htarget⟩ := hiff.mp ha
    rw [htarget]
    refine h.nodeByRelation?_eq_some_iff.mpr ⟨p.1, hp, ?_⟩
    rcases hname with hname | halias
    · exact hname.symm
    · exact absurd halias.symm (JoinGraph.tableAlias_ne_root hd hp)

/-- A view agrees with its graph on every relation that is not the alias of the root. A graph has
a view under a name unless the name is blank or the relation name of a joined node is the alias of
one, and that name is then given as the reason. -/
theorem agreesOnNames_of_create {g : JoinGraph} (h : g.Reachable) (hd : g.DistinctAliases)
    (name : String) :
    (∀ v, create name g = .ok v → v.graph = g ∧ v.AgreesOnNames) ∧
      ((create name g).isOk = true ↔ Text.allBlank name = false ∧ g.NamesApart) ∧
      (Text.allBlank name = false → ∀ e, create name g = .error e →
        ∃ p ∈ g.joined, ∃ q ∈ g.joined, p.1.relation = q.1.tableAlias ∧
          e = .duplicateRelation p.1.relation) := by
  refine ⟨?_, ?_, ?_⟩
  · intro v hv
    obtain ⟨_, relations, hrelations, rfl⟩ := create_eq_ok_iff.mp hv
    exact ⟨rfl, agreesOnNames_of_accessorsOf h.inv hd hrelations⟩
  · rw [← h.inv.accessorsOf_isOk_iff_namesApart hd]
    constructor
    · intro hok
      obtain ⟨v, hv⟩ := exists_of_isOk hok
      obtain ⟨hblank, relations, hrelations, _⟩ := create_eq_ok_iff.mp hv
      exact ⟨hblank, by rw [hrelations]; rfl⟩
    · rintro ⟨hblank, hok⟩
      obtain ⟨relations, hrelations⟩ := exists_of_isOk hok
      rw [create_eq_ok_iff.mpr ⟨hblank, relations, hrelations, rfl⟩]
      rfl
  · intro hblank e he
    exact h.inv.exists_of_accessorsOf_eq_error hd ((create_eq_error_iff hblank).mp he)

end View

namespace Warehouse

/-- Widgets, and parts that go by the alias of the widgets. -/
def shadowing : JoinGraph :=
  let first := AliasIssuer.standard.next "widgets" .root
  ((JoinGraph.ofRoot (JoinGraph.rootOf widgets first.1)).join first.2 0 {
    entity := parts, kind := .left, relation := some "t1_widgets"
    restrictions := [⟨.equals, .ofText "id", .ofText "part_id"⟩] }).1.graph

/-- The graph with a shadowed name can be reached. -/
theorem reachable_shadowing : shadowing.Reachable :=
  .join _ _ _ (@JoinGraph.Reachable.start .standard widgets _ rfl)

/-- A relation that goes by the alias of the root, in a view that agrees with its graph on all
other names. -/
theorem agreesOnNames_shadowing :
    shadowing.Reachable ∧ shadowing.DistinctAliases ∧ ∃ v, View.create "shadowing" shadowing = .ok v ∧
      v.AgreesOnNames ∧ (v.relations.get? "t1_widgets").isSome ∧
      (v.relations.get? "j2_parts").isSome := by
  have hd : shadowing.DistinctAliases := by decide +kernel
  obtain ⟨hagrees, hok, _⟩ := View.agreesOnNames_of_create reachable_shadowing hd "shadowing"
  obtain ⟨v, hv⟩ := exists_of_isOk (hok.mpr ⟨by decide +kernel, by decide +kernel⟩)
  obtain ⟨hgraph, hnames⟩ := hagrees v hv
  refine ⟨reachable_shadowing, hd, v, hv, hnames, ?_, ?_⟩
  · rw [hnames.relations, hgraph]
    decide +kernel
  · rw [hnames.relations, hgraph]
    decide +kernel

/-- An accessor does not always load what its name stands for in the graph: the alias of the root
goes first there. -/
theorem not_forall_nodeByName? :
    ¬ ∀ (g : JoinGraph) (v : View) (title : String), g.Reachable → g.DistinctAliases →
      View.create title g = .ok v → ∀ name a, v.relations.get? name = some a →
        g.nodeByName? name = some a.target := by
  intro hall
  have hd : shadowing.DistinctAliases := by decide +kernel
  have hok : (View.create "shadowing" shadowing).isOk = true := by decide +kernel
  obtain ⟨v, hv⟩ := exists_of_isOk hok
  obtain ⟨_, relations, hrelations, rfl⟩ := View.create_eq_ok_iff.mp hv
  have hagrees := View.agreesOnNames_of_accessorsOf (v := ⟨"shadowing", shadowing, {}, relations⟩)
    reachable_shadowing.inv hd hrelations
  have hjoined : ∃ p ∈ shadowing.joined,
      "t1_widgets" = p.1.relation ∨ "t1_widgets" = p.1.tableAlias := by decide +kernel
  have hroot : "t1_widgets" = shadowing.rootNode.tableAlias := by decide +kernel
  obtain ⟨a, ha⟩ := Option.isSome_iff_exists.mp ((hagrees.relations _).mpr hjoined)
  have htarget := hall shadowing _ "shadowing" reachable_shadowing hd hv _ a ha
  exact (hagrees.target _ a ha).mp htarget hroot

end Warehouse

end Joinery
