import Joinery.Proofs.Compiler.Scoping
import Joinery.Proofs.View.Relations

/-!
# What a natural join equates

A natural join compares the joined table with all tables before it: every column of the joined
table that one of those has too is equated. The key of a graph and the accessors of a view compare
the joined node with its parent alone.

The parent comes before the node, so what the two share is equated (`mem_equated_of_mem_shared`).
The rest is equated with tables that the key and the accessors do not look at, and there is none
exactly if the parent has whatever the node has in common with the nodes before it
(`equated_eq_shared_iff`). `readsNaturally` says what compilers, keys and views make of the
reference.
-/

namespace Joinery

namespace JoinGraph

/-- The nodes that were declared before the one that a reference joins. -/
def before (g : JoinGraph) (l : Link) : List Node :=
  (g.placed.take l.child).map (·.1)

/-- The columns that a natural join equates: those of the joined node that a node before it has
too. -/
def equated (g : JoinGraph) (l : Link) : List String :=
  l.childNode.entity.columns.filter fun name => (g.before l).any (·.entity.hasColumn name)

/-- What the joined node has in common with some node before it, the parent has as well. -/
def ParentCovers (g : JoinGraph) (l : Link) : Prop :=
  ∀ n ∈ g.before l, ∀ name ∈ l.childNode.entity.columns, n.entity.hasColumn name = true →
    l.parentNode.entity.hasColumn name = true

/-- A name is equated if the child has it and some table before it too. -/
theorem mem_equated {g : JoinGraph} {l : Link} {name : String} :
    name ∈ g.equated l ↔
      name ∈ l.childNode.entity.columns ∧ ∃ n ∈ g.before l, n.entity.hasColumn name = true := by
  rw [equated, List.mem_filter, List.any_eq_true]

/-- The tables before a reference are those of smaller position than its child. -/
theorem Inv.mem_before {g : JoinGraph} (h : g.Inv) {l : Link} {n : Node} :
    n ∈ g.before l ↔ ∃ i < l.child, g.node? i = some n := by
  unfold before
  constructor
  · intro hn
    obtain ⟨p, hp, rfl⟩ := List.mem_map.mp hn
    obtain ⟨i, hi⟩ := List.mem_iff_getElem?.mp hp
    rw [List.getElem?_take, h.getElem?_placed] at hi
    split at hi
    next hlt =>
      obtain ⟨m, hm, rfl⟩ := Option.map_eq_some_iff.mp hi
      exact ⟨i, hlt, hm⟩
    next => exact nomatch hi
  · intro ⟨i, hlt, hn⟩
    refine List.mem_map.mpr ⟨(n, i), List.mem_iff_getElem?.mpr ⟨i, ?_⟩, rfl⟩
    rw [List.getElem?_take, if_pos hlt, h.getElem?_placed, hn]
    rfl

theorem Inv.parentNode_mem_before {g : JoinGraph} (h : g.Inv) {l : Link} (hl : l ∈ g.links) :
    l.parentNode ∈ g.before l := by
  have hat := h.linkAt (h.mem_links.mp hl)
  have hparent := hat.parent
  have hchild := hat.child
  exact h.mem_before.mpr ⟨l.parent, by omega, hat.parentNode⟩

theorem mem_equated_of_mem_shared {g : JoinGraph} (h : g.Inv) {l : Link} (hl : l ∈ g.links)
    {name : String} (hname : name ∈ l.shared) : name ∈ g.equated l := by
  obtain ⟨hchild, hparent⟩ := List.mem_filter.mp hname
  exact mem_equated.mpr ⟨hchild, l.parentNode, h.parentNode_mem_before hl, hparent⟩

/-- Both are columns of the joined node in its order, so they are compared as lists. -/
theorem equated_eq_shared_iff {g : JoinGraph} (h : g.Inv) {l : Link} (hl : l ∈ g.links) :
    g.equated l = l.shared ↔ g.ParentCovers l := by
  constructor
  · intro heq n hn name hname hcolumn
    have hshared : name ∈ l.shared := by
      rw [← heq]
      exact mem_equated.mpr ⟨hname, n, hn, hcolumn⟩
    exact (Link.mem_shared.mp hshared).2
  · intro hcovers
    refine List.filter_congr fun name hname => ?_
    rw [Bool.eq_iff_iff, List.any_eq_true]
    constructor
    · intro ⟨n, hn, hcolumn⟩
      exact hcovers n hn name hname hcolumn
    · intro hparent
      exact ⟨l.parentNode, h.parentNode_mem_before hl, hparent⟩

/-! ## What is made of a natural reference -/

/-- How a natural reference is read. A query joins the node behind the nodes before it, without a
condition; the key takes the shared columns that it has not yet, and no others, and a view reaches
the node through all of them. -/
structure ReadsNaturally (g : JoinGraph) (l : Link) : Prop where
  joined : ∀ (c : Compiler) p q, c.compileWith g p = .ok q →
    q.joins[l.edge]? = some ⟨.natural, Compiler.tableRef l.childNode, none⟩ ∧
    q.tables.take (l.edge + 1) = (g.before l).map Compiler.tableRef
  keyed : ∀ name ∈ l.shared, name ∈ g.keyNames
  contributed : ∀ k ∈ g.key, k.reference = some l.edge → k.owner = l.child ∧ k.name ∈ l.shared
  reached : ∀ v : View, v.graph = g → v.Created →
    ∀ name ∈ [l.childNode.relation, l.childNode.tableAlias],
      v.relations.get? name = some (.natural l.edge l.child l.shared)

theorem references_ne_nil_of_mem_links {g : JoinGraph} {l : Link} (hl : l ∈ g.links) :
    g.references ≠ [] := by
  intro hnil
  rw [links, hnil, List.filterMap_nil] at hl
  exact List.not_mem_nil hl

/-- A name that a reference has for the key is in the key, from this reference or another. -/
theorem mem_keyNames_of_mem_keyColumns {g : JoinGraph} {l : Link} (hl : l ∈ g.links) {k : KeyColumn}
    (hk : k ∈ l.keyColumns) : k.name ∈ g.keyNames :=
  (mem_keyNames_iff (references_ne_nil_of_mem_links hl)).mpr ⟨l, hl, k, hk, rfl⟩

/-- A key column comes from the reference it names. -/
theorem exists_link_of_mem_key {g : JoinGraph} {k : KeyColumn} (hk : k ∈ g.key) {e : Nat}
    (he : k.reference = some e) : ∃ l ∈ g.links, k ∈ l.keyColumns ∧ l.edge = e := by
  rcases mem_key_cases hk with ⟨_, _, _, rfl⟩ | ⟨_, hfirst⟩
  · exact nomatch he
  · obtain ⟨l, hl, hk⟩ := List.mem_flatMap.mp (List.mem_of_find?_eq_some hfirst)
    refine ⟨l, hl, hk, ?_⟩
    rw [reference_of_mem_keyColumns hk] at he
    exact Option.some.inj he

/-- A natural join gives the key its shared columns, as the child's. -/
theorem keyColumns_of_natural {l : Link} (hkind : l.childNode.kind = .natural) :
    l.keyColumns = l.shared.map fun name => ⟨name, l.child, some l.edge⟩ :=
  if_pos hkind

/-- A natural join equates what is shared and, where the parent does not cover the rest, more. -/
theorem Inv.readsNaturally {g : JoinGraph} (h : g.Inv) {l : Link} (hl : l ∈ g.links)
    (hkind : l.childNode.kind = .natural) : g.ReadsNaturally l where
  joined := by
    intro c p q hq
    have hlink := h.mem_links.mp hl
    obtain ⟨_, _, rfl⟩ := Compiler.compileWith_eq_ok_iff.mp hq
    constructor
    · show (g.links.map (c.joinOf g))[l.edge]? = _
      rw [List.getElem?_map, h.getElem?_links, hlink, Option.map_some, Compiler.joinOf,
        Compiler.condition, hkind]
      rfl
    · rw [Compiler.tables_queryOf, before, List.map_map, (h.linkAt hlink).child, List.map_take]
      rfl
  keyed := by
    intro name hname
    refine @mem_keyNames_of_mem_keyColumns g l hl ⟨name, l.child, some l.edge⟩ ?_
    rw [keyColumns_of_natural hkind]
    exact List.mem_map_of_mem hname
  contributed := by
    intro k hk he
    obtain ⟨other, hother, hk, hedge⟩ := exists_link_of_mem_key hk he
    have heq : other = l := by
      have hlink := h.mem_links.mp hother
      rw [hedge, h.mem_links.mp hl, Option.some.injEq] at hlink
      exact hlink.symm
    rw [heq, keyColumns_of_natural hkind] at hk
    obtain ⟨name, hname, rfl⟩ := List.mem_map.mp hk
    exact ⟨rfl, hname⟩
  reached := by
    rintro v rfl hv name hname
    have hlink : Accessor.ofLink l = .natural l.edge l.child l.shared := if_pos hkind
    rw [← hlink]
    rcases List.mem_pair.mp hname with rfl | rfl
    · exact (View.get?_of_link hv.accessorsOf hl).1
    · exact (View.get?_of_link hv.accessorsOf hl).2

/-- Every natural reference of every graph equates what the joined node shares with its parent, and
that is what keys and views take. It is all that is equated exactly if the parent covers the node;
whatever else is equated, the node has in common with a node before it that is not its parent. -/
theorem equated_of_reachable {g : JoinGraph} (h : g.Reachable) {l : Link} (hl : l ∈ g.links)
    (hkind : l.childNode.kind = .natural) :
    g.ReadsNaturally l ∧ (∀ name ∈ l.shared, name ∈ g.equated l) ∧
      (g.equated l = l.shared ↔ g.ParentCovers l) ∧
      ∀ name ∈ g.equated l, name ∉ l.shared → ∃ i n, i < l.child ∧ i ≠ l.parent ∧
        g.node? i = some n ∧ n.entity.hasColumn name = true := by
  refine ⟨h.inv.readsNaturally hl hkind, fun _ => mem_equated_of_mem_shared h.inv hl,
    equated_eq_shared_iff h.inv hl, ?_⟩
  intro name hname hnotShared
  obtain ⟨hchild, n, hn, hcolumn⟩ := mem_equated.mp hname
  obtain ⟨i, hlt, hi⟩ := h.inv.mem_before.mp hn
  refine ⟨i, n, hlt, ?_, hi, hcolumn⟩
  rintro rfl
  rw [(h.inv.linkAt (h.inv.mem_links.mp hl)).parentNode, Option.some.injEq] at hi
  rw [← hi] at hcolumn
  exact hnotShared (List.mem_filter.mpr ⟨hchild, hcolumn⟩)

end JoinGraph

namespace Warehouse

def remarks : Entity :=
  ((Entity.ofTable "remarks").withColumn "id" .integer).withColumn "detail" .text

/-- Widgets with their profiles and parts, and with remarks that have a column in common with the
parts alone. -/
def remarked : JoinGraph :=
  ((described root).join ⟨"t", "j", 3⟩ 0 { entity := remarks, kind := .natural }).1.graph

theorem reachable_remarked : remarked.Reachable :=
  .join _ _ _ (reachable_described reachable_root)

theorem links_remarked_ne_nil : remarked.links ≠ [] := by decide +kernel

/-- For the profiles exactly those names are equated that they share with the widgets. -/
theorem equated_profiles :
    remarked.Reachable ∧ ∃ l ∈ remarked.links, l.childNode.kind = .natural ∧
      l.childNode.entity = profiles ∧ l.shared = ["id", "name"] ∧
      remarked.equated l = l.shared := by
  have hkind : (remarked.links.head links_remarked_ne_nil).childNode.kind = .natural := by
    decide +kernel
  obtain ⟨_, _, hiff, _⟩ :=
    JoinGraph.equated_of_reachable reachable_remarked (List.head_mem links_remarked_ne_nil) hkind
  refine ⟨reachable_remarked, _, List.head_mem links_remarked_ne_nil, hkind, by decide +kernel,
    by decide +kernel, hiff.mpr ?_⟩
  unfold JoinGraph.ParentCovers
  decide +kernel

/-- The details of a part and of a remark are equated, although remarks are joined to widgets. -/
theorem not_forall_equated :
    ¬ ∀ g : JoinGraph, g.Reachable → ∀ l ∈ g.links, l.childNode.kind = .natural →
      ∀ name, name ∈ g.equated l ↔ name ∈ l.shared := by
  intro hall
  have hkind : (remarked.links.getLast links_remarked_ne_nil).childNode.kind = .natural := by
    decide +kernel
  have hiff := hall _ reachable_remarked _ (List.getLast_mem links_remarked_ne_nil) hkind "detail"
  have hequated : "detail" ∈ remarked.equated (remarked.links.getLast links_remarked_ne_nil) := by
    decide +kernel
  exact absurd (hiff.mp hequated) (by decide +kernel)

end Warehouse

end Joinery
