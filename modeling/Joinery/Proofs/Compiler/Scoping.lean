import Joinery.Proofs.Compiler.Completeness
import Joinery.View.Basic

/-!
# Compiled queries are well scoped

A query introduces the root and then one joined table after the other. `Scoped` says that no
alias is introduced twice, that the condition of a join reads from tables introduced up to
that join, that the select list reads from tables of the query, and that every column read is
a column of the entity whose table it is read from.

Columns come into a query on three ways, and each has its lemma: restrictions are pinned to
nodes up to the joined one (`reads_of_mem_condition`), nodes show columns of their own
(`owned_of_mem_shown`), and the key of a view consists of columns of the nodes that it is
taken from (`owner_of_mem_key`).

The queries are those of `Compiler.compile` and of `View.query`.
-/

namespace Joinery

namespace JoinGraph

/-! ## The columns of a graph -/

/-- The column belongs to a node of the graph, which it is read from under its alias. -/
def Owned (g : JoinGraph) (c : ProjectedColumn) : Prop :=
  ∃ n, g.node? c.node = some n ∧ c.tableAlias = n.tableAlias ∧
    n.entity.hasColumn c.column = true

/-- A shown column belongs to the node that shows it. -/
theorem Inv.owned_of_mem_shown {g : JoinGraph} (h : g.Inv) {c : ProjectedColumn}
    (hc : c ∈ g.shown) : g.Owned c := by
  obtain ⟨⟨n, i⟩, hplaced, hshown⟩ := List.mem_flatMap.mp hc
  obtain ⟨shown, hmem, rfl⟩ := List.mem_map.mp hshown
  have hn := h.mem_placed.mp hplaced
  exact ⟨n, hn, rfl, (h.nodes i n hn).shown shown hmem⟩

/-- What a reference contributes to the key are columns of the joined node, or such as its
restrictions are pinned to. -/
theorem LinkAt.owner_of_mem_keyColumns {g : JoinGraph} {e : Nat} {l : Link} (h : g.LinkAt e l)
    {k : KeyColumn} (hk : k ∈ l.keyColumns) :
    ∃ n, g.node? k.owner = some n ∧ n.entity.hasColumn k.name = true := by
  unfold Link.keyColumns at hk
  split at hk
  next =>
    obtain ⟨name, hname, rfl⟩ := List.mem_map.mp hk
    exact ⟨l.childNode, h.childNode, (Link.mem_shared.mp hname).1⟩
  next =>
    obtain ⟨t, ht, rfl⟩ := List.mem_map.mp hk
    obtain ⟨r, _, hpinned⟩ := exists_of_mem_right h.pinnedAs ht
    exact hpinned.localOwned.2

/-- Every column of the key is a column of the node it is taken from. -/
theorem Inv.owner_of_mem_key {g : JoinGraph} (h : g.Inv) {k : KeyColumn} (hk : k ∈ g.key) :
    ∃ n, g.node? k.owner = some n ∧ n.entity.hasColumn k.name = true := by
  rcases mem_key_cases hk with ⟨_, name, hname, rfl⟩ | ⟨_, hfirst⟩
  · have hroot := h.node?_root
    refine ⟨g.rootNode, hroot, ?_⟩
    exact (Entity.of_defect?_eq_none (h.nodes _ _ hroot).accepted).2 name hname
  · obtain ⟨l, hl, hcolumn⟩ := List.mem_flatMap.mp (List.mem_of_find?_eq_some hfirst)
    exact (h.linkAt (h.mem_links.mp hl)).owner_of_mem_keyColumns hcolumn

/-- A key column in the result belongs to its owner. -/
theorem Inv.owned_of_mem_keyColumn {g : JoinGraph} (h : g.Inv) {k : KeyColumn}
    {c : ProjectedColumn} (hk : k ∈ g.key) (hc : View.keyColumn? g k = some c) : g.Owned c := by
  obtain ⟨n, hn, hcolumn⟩ := h.owner_of_mem_key hk
  rw [View.keyColumn?, hn, Option.map_some, Option.some.injEq] at hc
  rw [← hc]
  exact ⟨n, hn, rfl, hcolumn⟩

/-- Every column of a view belongs to the node it names. -/
theorem Inv.owned_of_mem_columns {v : View} (h : v.graph.Inv) {c : ProjectedColumn}
    (hc : c ∈ v.columns.values) : v.graph.Owned c := by
  have hmem := List.mem_of_find?_eq_some (Projection.mem_values_ofColumns.mp hc)
  rcases List.mem_append.mp hmem with hshown | hkey
  · exact h.owned_of_mem_shown hshown
  · obtain ⟨k, hk, hkc⟩ := List.mem_filterMap.mp hkey
    exact h.owned_of_mem_keyColumn hk hkc

end JoinGraph

/-! ## Scopes -/

namespace Query

/-- The column is read from one of the first tables of the query. That table stands for a node of
the graph, and the entity of the node has the column; where the entity is a view, the query behind
the view shows something under that name. -/
def Reads (q : Query) (g : JoinGraph) (bound : Nat) (column : Option String × String) : Prop :=
  ∃ i n, i < bound ∧ g.node? i = some n ∧
    q.tables[i]? = some ⟨ObjectName.ofText n.entity.table, some n.tableAlias⟩ ∧
    column.1 = some n.tableAlias ∧ column.2 ∈ n.entity.columns ∧
    ∀ v : View, n.entity = v.toEntity → ∀ inner, v.query = .ok inner →
      some column.2 ∈ inner.select.map (·.output)

/-- The query introduces no alias twice and reads only columns that are there where it does. -/
structure Scoped (q : Query) (g : JoinGraph) : Prop where
  aliases : q.tableAliases.Nodup
  -- the tables that a condition can speak of: the root, those joined before, the joined one
  conditions : ∀ k j e, q.joins[k]? = some j → j.condition = some e →
    ∀ column ∈ e.columns, q.Reads g (k + 2) column
  select : ∀ item ∈ q.select, ∀ column ∈ item.expr.columns, q.Reads g q.tables.length column

end Query

/-- What the entity of a view has as a column, the query behind the view shows. -/
theorem View.output_of_mem_columns {v : View} {q : Query} (h : v.query = .ok q) {name : String}
    (hname : name ∈ v.toEntity.columns) : some name ∈ q.select.map (·.output) := by
  obtain ⟨_, _, rfl⟩ := Compiler.compileWith_eq_ok_iff.mp h
  have hvalue : name ∈ v.columns.values.map (·.output) := by
    rw [View.columns, ← Projection.names_ofColumns]
    exact hname
  obtain ⟨p, hp, rfl⟩ := List.mem_map.mp hvalue
  exact List.mem_map.mpr ⟨Compiler.selectItem p, List.mem_map_of_mem hp, rfl⟩

namespace Compiler

/-- The tables of a compiled query are the nodes of the graph in declaration order. -/
theorem tables_queryOf (c : Compiler) (g : JoinGraph) (p : Projection) :
    (c.queryOf g p).tables = g.placed.map fun placed => tableRef placed.1 := by
  show tableRef g.rootNode :: (g.links.map (c.joinOf g)).map (·.table) = _
  rw [List.map_map, JoinGraph.placed, JoinGraph.joined, List.map_cons, List.map_map]
  rfl

/-- The query has the aliases of the nodes, in their order. -/
theorem tableAliases_queryOf (c : Compiler) (g : JoinGraph) (p : Projection) :
    (c.queryOf g p).tableAliases = (g.placed.map (·.1.tableAlias)).map some := by
  rw [Query.tableAliases, tables_queryOf, List.map_map, List.map_map]
  rfl

/-- A compiled query can read the columns of a node from the table that stands for it. -/
theorem reads_queryOf (c : Compiler) {g : JoinGraph} (h : g.Inv) (p : Projection) {i bound : Nat}
    {n : Node} {name : String} (hi : i < bound) (hn : g.node? i = some n)
    (hname : n.entity.hasColumn name = true) :
    (c.queryOf g p).Reads g bound (some n.tableAlias, name) := by
  have hmem := Entity.hasColumn_iff.mp hname
  refine ⟨i, n, hi, hn, ?_, rfl, hmem, ?_⟩
  · rw [tables_queryOf, List.getElem?_map, h.getElem?_placed, hn]
    rfl
  · intro v hv inner hinner
    rw [hv] at hmem
    exact View.output_of_mem_columns hinner hmem

/-- A column on a node up to `last` is in scope from the join of that node on. -/
theorem reads_of_owns (c : Compiler) {g : JoinGraph} (h : g.Inv) (p : Projection) {last : Nat}
    {pinned : PinnedColumn} {n : Node} (ho : g.Owns last pinned)
    (hn : g.node? pinned.node = some n) :
    (c.queryOf g p).Reads g (last + 1) (some n.tableAlias, pinned.column) := by
  obtain ⟨hle, owner, howner, hname⟩ := ho
  rw [hn, Option.some.injEq] at howner
  rw [← howner] at hname
  exact c.reads_queryOf h p (by omega) hn hname

/-- The condition of a reference reads from the joined node and from nodes before it. -/
theorem reads_of_mem_condition (c : Compiler) {g : JoinGraph} (h : g.Inv) (p : Projection) {k : Nat}
    {l : Link} (hl : g.link? k = some l) {e : Expr} (he : (c.joinOf g l).condition = some e)
    {column : Option String × String} (hcolumn : column ∈ e.columns) :
    (c.queryOf g p).Reads g (k + 2) column := by
  have hat := h.linkAt hl
  have hjoins := c.joinsAs_joinOf h hl
  by_cases hnat : l.childNode.kind = .natural
  · rw [hjoins.natural hnat] at he
    exact absurd he (by simp)
  · obtain ⟨conjunction, hcondition, _, hall⟩ := hjoins.restricted hnat
    rw [hcondition, Option.some.injEq] at he
    have hmem : column ∈ conjunction.columns := by
      rw [← he] at hcolumn
      exact hcolumn
    rw [Expr.columns_eq_flatMap_conjuncts] at hmem
    obtain ⟨conjunct, hconjunct, hmem⟩ := List.mem_flatMap.mp hmem
    obtain ⟨⟨r, t⟩, hrt, near, far, hnear, hfar, hsays⟩ := exists_of_mem_right hall hconjunct
    have hpinned := hat.sound.pinned _ hrt
    rw [Comparison.says_iff.mp hsays, columns_predicate, List.mem_cons, List.mem_singleton] at hmem
    rcases hmem with rfl | rfl
    · rw [← hpinned.localColumn]
      exact c.reads_of_owns h p hpinned.localOwned hnear
    · rw [← hpinned.remoteColumn]
      exact c.reads_of_owns h p hpinned.remoteOwned hfar

/-- A query of owned columns is scoped. -/
theorem scoped_queryOf (c : Compiler) {g : JoinGraph} (h : g.Inv) (hd : g.DistinctAliases)
    {p : Projection} (hp : ∀ column ∈ p.values, g.Owned column) : (c.queryOf g p).Scoped g where
  aliases := by
    rw [tableAliases_queryOf]
    exact hd.map fun _ _ => Option.some.inj
  conditions := by
    intro k j e hj he column hcolumn
    rw [queryOf, List.getElem?_map] at hj
    obtain ⟨l, hl, rfl⟩ := Option.map_eq_some_iff.mp hj
    rw [h.getElem?_links] at hl
    exact c.reads_of_mem_condition h p hl he hcolumn
  select := by
    intro item hitem column hcolumn
    obtain ⟨shown, hshown, rfl⟩ := List.mem_map.mp hitem
    obtain ⟨n, hn, halias, hname⟩ := hp shown hshown
    have heq : column = (some n.tableAlias, shown.column) := by
      rw [← halias]
      exact List.mem_singleton.mp hcolumn
    rw [heq]
    refine c.reads_queryOf h p ?_ hn hname
    rw [tables_queryOf, List.length_map, h.length_placed]
    exact JoinGraph.lt_size_of_node? hn

/-- Every query for a graph without repeated aliases is well scoped, whether the graph was compiled
as it is or as a view. -/
theorem scoped_of_reachable {g : JoinGraph} (h : g.Reachable) (hd : g.DistinctAliases) {q : Query}
    (hq : (∃ c : Compiler, c.compile g = .ok q) ∨ ∃ v : View, v.graph = g ∧ v.query = .ok q) :
    q.Scoped g := by
  have hi := h.inv
  rcases hq with ⟨c, hcompile⟩ | ⟨v, rfl, hquery⟩
  · obtain ⟨_, _, rfl⟩ := compileWith_eq_ok_iff.mp hcompile
    refine c.scoped_queryOf hi hd ?_
    intro column hcolumn
    exact hi.owned_of_mem_shown (List.mem_of_find?_eq_some
      (Projection.mem_values_ofColumns.mp hcolumn))
  · obtain ⟨_, _, rfl⟩ := compileWith_eq_ok_iff.mp hquery
    refine v.compiler.scoped_queryOf hi hd ?_
    intro column hcolumn
    exact hi.owned_of_mem_columns hcolumn

end Compiler

namespace Warehouse

/-- Labels of the widgets that a view over the warehouse shows. -/
def stock : View :=
  { name := "stock", graph, compiler := {}, relations := .empty }

/-- A graph over that view, with the labels joined to it once more. -/
def tagged : JoinGraph :=
  let aliases := AliasIssuer.withPrefixes "v" "w"
  let first := aliases.next "stock" .root
  let root := JoinGraph.ofRoot (JoinGraph.rootOf stock.toEntity first.1)
  (root.join first.2 0 {
    entity := labels, kind := .left, projection := [("text", "text")]
    restrictions := [⟨.notEquals, .ofText "text", .ofText "widget"⟩] }).1.graph

def tags : View :=
  { name := "tags", graph := tagged, compiler := {}, relations := .empty }

/-- The graph behind the view can be reached. -/
theorem reachable_tagged : tagged.Reachable :=
  .join _ _ _ (.start (JoinGraph.start_eq_ok (by decide +kernel)))

/-- A nested view, whose query is scoped too. -/
theorem scoped_tags :
    tagged.Reachable ∧ tagged.DistinctAliases ∧ ∃ q, tags.query = .ok q ∧ q.Scoped tagged := by
  have hd : tagged.DistinctAliases := by decide +kernel
  have hok : tags.query.isOk = true := by decide +kernel
  cases hq : tags.query with
  | error e =>
    rw [hq] at hok
    exact absurd hok (by simp [Except.isOk, Except.toBool])
  | ok q =>
    exact ⟨reachable_tagged, hd, q, rfl,
      Compiler.scoped_of_reachable reachable_tagged hd (.inr ⟨tags, rfl, hq⟩)⟩

end Warehouse

end Joinery
