import Joinery.Proofs.View.Entities

/-!
# The key columns of a view

A view shows the columns of its key under their own names, after all that the nodes of its graph
show, and an output name belongs to whoever claims it first. So a view has a key column under
its name exactly if no node shows another column there (`hasKeyColumn_iff_keepsName`). Where one
does, the view has that other column under the name, and its type.

The columns are `View.columns`, and the key is `View.key`.
-/

namespace Joinery

/-- What the nodes show under an output name: the first column that one of them shows there. -/
def JoinGraph.shownAs? (g : JoinGraph) (output : String) : Option ProjectedColumn :=
  g.shown.find? (·.output == output)

namespace View

/-- No node shows another column under the name of the key column. -/
def KeepsName (v : View) (k : KeyColumn) : Prop :=
  ∀ p ∈ v.graph.shownAs? k.name, p.node = k.owner ∧ p.column = k.name

/-- The view has the key column under its name, as a column of the node. -/
structure HasKeyColumn (v : View) (k : KeyColumn) (n : Node) : Prop where
  source : v.columns.get? k.name = some ⟨k.owner, n.tableAlias, k.name, k.name⟩
  selected : ∀ q, v.query = .ok q →
    ⟨.column (some n.tableAlias) k.name, some k.name⟩ ∈ q.select
  type : v.toEntity.pseudoType? k.name = n.entity.pseudoType? k.name

/-- What nodes show comes before the key. -/
theorem get?_columns (v : View) (output : String) :
    v.columns.get? output =
      (v.graph.shownAs? output).or
        ((v.key.filterMap (keyColumn? v.graph)).find? (·.output == output)) := by
  rw [columns, Projection.get?_ofColumns, List.find?_append]
  rfl

/-- The type of a column of the view is that of its source. -/
theorem pseudoType?_of_get? {v : View} {output : String} {c : ProjectedColumn} {n : Node}
    (hc : v.columns.get? output = some c) (hn : v.graph.node? c.node = some n) :
    v.toEntity.pseudoType? output = n.entity.pseudoType? c.column := by
  apply Option.ext
  intro type
  rw [pseudoType?_eq_some_iff]
  constructor
  · intro ⟨c', n', hc', hn', htype⟩
    rw [hc, Option.some.injEq] at hc'
    rw [← hc', hn, Option.some.injEq] at hn'
    rw [hc', hn']
    exact htype
  · intro htype
    exact ⟨c, n, hc, hn, htype⟩

/-- The key has one column of a name, or takes all that it has from the root. -/
theorem owner_eq_of_mem_key {g : JoinGraph} {k k' : KeyColumn} (hk : k ∈ g.key) (hk' : k' ∈ g.key)
    (hname : k'.name = k.name) : k'.owner = k.owner := by
  rcases JoinGraph.mem_key_cases hk with ⟨hnil, _, _, rfl⟩ | ⟨hne, hfirst⟩ <;>
    rcases JoinGraph.mem_key_cases hk' with ⟨hnil', _, _, rfl⟩ | ⟨hne', hfirst'⟩
  · rfl
  · exact absurd hnil hne'
  · exact absurd hnil' hne
  · rw [hname, hfirst, Option.some.injEq] at hfirst'
    rw [hfirst']

/-- Where the key has a column of the name, it is shown unless a node shows something there. -/
theorem find?_keyColumns {v : View} {k : KeyColumn} (hk : k ∈ v.key) {n : Node}
    (hn : v.graph.node? k.owner = some n) :
    (v.key.filterMap (keyColumn? v.graph)).find? (·.output == k.name) =
      some ⟨k.owner, n.tableAlias, k.name, k.name⟩ := by
  have hmem : ⟨k.owner, n.tableAlias, k.name, k.name⟩ ∈ v.key.filterMap (keyColumn? v.graph) := by
    refine List.mem_filterMap.mpr ⟨k, hk, ?_⟩
    rw [keyColumn?, hn]
    rfl
  cases hfind : (v.key.filterMap (keyColumn? v.graph)).find? (·.output == k.name) with
  | none =>
    rw [List.find?_eq_none] at hfind
    exact absurd (beq_self_eq_true k.name) (hfind _ hmem)
  | some c =>
    have hname := List.find?_some hfind
    rw [beq_iff_eq] at hname
    obtain ⟨k', hk', hc⟩ := List.mem_filterMap.mp (List.mem_of_find?_eq_some hfind)
    obtain ⟨n', hn', rfl⟩ := Option.map_eq_some_iff.mp hc
    change k'.name = k.name at hname
    have howner : k'.owner = k.owner := owner_eq_of_mem_key hk hk' hname
    rw [howner, hn, Option.some.injEq] at hn'
    rw [howner, hname, hn']

/-- A view that shows a key column of a node under its own name has that column. -/
theorem hasKeyColumn_of_source {v : View} {k : KeyColumn} {n : Node}
    (hn : v.graph.node? k.owner = some n)
    (h : v.columns.get? k.name = some ⟨k.owner, n.tableAlias, k.name, k.name⟩) :
    v.HasKeyColumn k n := by
  refine ⟨h, ?_, pseudoType?_of_get? h hn⟩
  intro q hq
  obtain ⟨_, _, rfl⟩ := Compiler.compileWith_eq_ok_iff.mp hq
  exact List.mem_map.mpr ⟨_, (get?_columns_eq_some_iff.mp h).1, rfl⟩

/-- A view has a key column of its own node exactly if nothing else has taken the name. -/
theorem hasKeyColumn_iff_keepsName {v : View} (h : v.graph.Inv) {k : KeyColumn} (hk : k ∈ v.key)
    {n : Node} (hn : v.graph.node? k.owner = some n) : v.HasKeyColumn k n ↔ v.KeepsName k := by
  have hget := v.get?_columns k.name
  rw [find?_keyColumns hk hn] at hget
  constructor
  · intro hhas p hp
    rw [Option.mem_def.mp hp, hhas.source] at hget
    rw [← Option.some.inj hget]
    exact ⟨rfl, rfl⟩
  · intro hkeeps
    apply hasKeyColumn_of_source hn
    cases hshown : v.graph.shownAs? k.name with
    | none => rw [hget, hshown]; rfl
    | some p =>
      -- what is shown there is the key column itself, under the alias of its owner
      obtain ⟨hnode, hcolumn⟩ := hkeeps p hshown
      have hname := List.find?_some hshown
      rw [beq_iff_eq] at hname
      obtain ⟨m, hm, halias, _⟩ := h.owned_of_mem_shown (List.mem_of_find?_eq_some hshown)
      rw [hnode, hn, Option.some.injEq] at hm
      rw [hget, hshown, Option.some_or, ← hnode, hm, ← halias]
      obtain ⟨node, tableAlias, column, output⟩ := p
      change column = k.name at hcolumn
      change output = k.name at hname
      rw [hcolumn, hname]

/-- A view has each column of its key under the name that it has in the key, from its owner and
with the type that it has there, unless a node shows another column under that name. The view then
has the first such column there. -/
theorem hasKeyColumn_of_reachable {v : View} (h : v.graph.Reachable) {k : KeyColumn}
    (hk : k ∈ v.key) :
    ∃ n, v.graph.node? k.owner = some n ∧ n.entity.hasColumn k.name = true ∧
      (v.HasKeyColumn k n ↔ v.KeepsName k) ∧
      (¬ v.KeepsName k → ∃ p m, v.graph.shownAs? k.name = some p ∧
        v.columns.get? k.name = some p ∧ v.graph.node? p.node = some m ∧
        v.toEntity.pseudoType? k.name = m.entity.pseudoType? p.column) := by
  obtain ⟨n, hn, hcolumn⟩ := h.inv.owner_of_mem_key hk
  refine ⟨n, hn, hcolumn, hasKeyColumn_iff_keepsName h.inv hk hn, ?_⟩
  intro hloses
  unfold KeepsName at hloses
  cases hshown : v.graph.shownAs? k.name with
  | none =>
    rw [hshown] at hloses
    exact absurd (fun p hp => absurd hp (by simp)) hloses
  | some p =>
    have hget : v.columns.get? k.name = some p := by
      rw [get?_columns, hshown]
      rfl
    obtain ⟨m, hm, _⟩ := h.inv.owned_of_mem_shown (List.mem_of_find?_eq_some hshown)
    exact ⟨p, m, rfl, hget, hm, pseudoType?_of_get? hget hm⟩

end View

namespace Warehouse

/-- The key of the stock comes from its parts. -/
theorem hasKeyColumn_stock :
    stock.graph.Reachable ∧ ⟨"part", 2, some 1⟩ ∈ stock.key ∧
      ∃ n, stock.graph.node? 2 = some n ∧ stock.HasKeyColumn ⟨"part", 2, some 1⟩ n := by
  have hkey : (⟨"part", 2, some 1⟩ : KeyColumn) ∈ stock.key := by decide +kernel
  have hfree : stock.graph.shownAs? "part" = none := by decide +kernel
  obtain ⟨n, hn, _, hhas, _⟩ := View.hasKeyColumn_of_reachable (v := stock) reachable_graph hkey
  refine ⟨reachable_graph, hkey, n, hn, hhas.mpr ?_⟩
  intro p hp
  rw [hfree] at hp
  exact absurd hp (by simp)

/-- Widgets alone, with their names shown under the name of their key. -/
def renamed : View :=
  { name := "renamed"
    graph := ((JoinGraph.ofRoot (JoinGraph.rootOf widgets "t1_widgets")).project 0 "name" "id").graph
    compiler := {}
    relations := .empty }

/-- Not every view has the key columns of the nodes they come from: a shown column can take the
name. -/
theorem not_forall_hasKeyColumn :
    ¬ ∀ v : View, v.graph.Reachable → v.Created → ∀ k ∈ v.key, ∀ n,
      v.graph.node? k.owner = some n → v.HasKeyColumn k n := by
  intro hall
  have hreachable : renamed.graph.Reachable :=
    .project _ _ _ (@JoinGraph.Reachable.start .standard widgets _ rfl)
  have hcreated : renamed.Created := by
    apply View.created_of_create
    exact View.create_eq_ok_iff.mpr ⟨by decide +kernel, .empty, rfl, rfl⟩
  have hroot : (renamed.graph.node? 0).isSome = true := by decide +kernel
  obtain ⟨n, hn⟩ := Option.isSome_iff_exists.mp hroot
  have hhas := hall renamed hreachable hcreated ⟨"id", 0, none⟩ (by decide +kernel) n hn
  have hshown : renamed.columns.get? "id" = some ⟨0, "t1_widgets", "name", "id"⟩ := by
    decide +kernel
  have hsource := hhas.source
  rw [hshown, Option.some.injEq, ProjectedColumn.mk.injEq] at hsource
  exact absurd hsource.2.2.1 (by decide)

end Warehouse

end Joinery
