import Joinery.Proofs.Compiler.Scoping

/-!
# Views as entities

A view answers as an entity from four sides, and they are computed apart: its columns are the
names of its projection, its key comes from the references of the graph, its types from the
entities behind the graph, and its select list from the compiler. `View.Coherent` says that
they agree.

What is known of types passes from the entities of a graph to the view over it. An entity is
`FullyTyped` if it knows the types of exactly its columns. A column of a view is a column of the
entity it is taken from, so it is typed if all of these are (`typed_of_fullyTyped`). Declared
tables are fully typed, and by induction so is everything that views build upon them
(`Nested.fullyTyped`).

The entity is that of `View.toEntity`, over a view from `View.create`.
-/

namespace Joinery

namespace Entity

/-- The entity knows the type of each of its columns, and of nothing else. -/
def FullyTyped (e : Entity) : Prop :=
  ∀ column, (e.pseudoType? column).isSome = true ↔ column ∈ e.columns

/-- Declared as a table, step by step. -/
inductive Declared : Entity → Prop
  | ofTable (table : String) : Declared (ofTable table)
  | withColumn {e : Entity} (column : String) (type : PseudoType) :
    Declared e → Declared (e.withColumn column type)
  | withPrimaryKey {e : Entity} (key : List String) : Declared e → Declared (e.withPrimaryKey key)
  | withForeignKey {e : Entity} (column : String) (key : ForeignKey) :
    Declared e → Declared (e.withForeignKey column key)

theorem FullyTyped.withColumn {e : Entity} (h : e.FullyTyped) (column : String)
    (type : PseudoType) : (e.withColumn column type).FullyTyped := by
  intro name
  have hname := h name
  have hcolumn := h column
  unfold pseudoType? at hname hcolumn ⊢
  unfold Entity.withColumn
  simp only [List.lookup_cons]
  by_cases heq : name = column
  · rw [heq, beq_self_eq_true]
    simp only [Option.isSome_some, true_iff]
    split
    next htyped => exact hcolumn.mp htyped
    next => exact List.mem_append_right _ (List.mem_singleton_self _)
  · rw [beq_eq_false_iff_ne.mpr heq]
    simp only
    rw [hname]
    split
    next => exact Iff.rfl
    next =>
      rw [List.mem_append, List.mem_singleton]
      exact (or_iff_left heq).symm

/-- Declared entities know the types of all their columns. -/
theorem Declared.fullyTyped {e : Entity} (h : e.Declared) : e.FullyTyped := by
  induction h with
  | ofTable table => exact fun column => iff_of_false Bool.false_ne_true List.not_mem_nil
  | withColumn column type _ ih => exact ih.withColumn column type
  | withPrimaryKey key _ ih => exact ih
  | withForeignKey column key _ ih => exact ih

end Entity

namespace View

/-- The view was made over its graph, with whichever compiler. -/
def Created (v : View) : Prop :=
  ∃ first c, create v.name v.graph = .ok first ∧ v = first.withCompiler c

/-- The sides of a view agree with each other. -/
structure Coherent (v : View) : Prop where
  ascending : v.toEntity.columns.Pairwise (· < ·)
  outputs : ∀ q, v.query = .ok q → q.select.map (·.output) = v.toEntity.columns.map some
  key : ∀ name ∈ v.toEntity.primaryKey, name ∈ v.toEntity.columns
  accepted : v.toEntity.defect? = none ↔ v.toEntity.columns ≠ []
  compiled : v.toEntity.columns ≠ [] ↔ ∀ table, v.query ≠ .error (.emptyProjection table)

/-- The view knows the types of its columns, from the entities that they are taken from. -/
structure Typed (v : View) : Prop where
  manifest : v.manifest.map (·.1) = v.toEntity.columns
  sources : ∀ output type, (output, type) ∈ v.manifest →
    ∃ c n, v.columns.get? output = some c ∧ v.graph.node? c.node = some n ∧
      c.column ∈ n.entity.columns ∧ n.entity.pseudoType? c.column = some type
  fullyTyped : v.toEntity.FullyTyped

/-- A view is made for every name that is not blank and every graph whose accessors have names of
their own. -/
theorem create_eq_ok_iff {name : String} {g : JoinGraph} {v : View} :
    create name g = .ok v ↔ Text.allBlank name = false ∧
      ∃ relations, accessorsOf g = .ok relations ∧ v = ⟨name, g, {}, relations⟩ := by
  unfold create
  cases hname : Text.allBlank name with
  | true => exact iff_of_false (fun h => nomatch h) (by simp)
  | false =>
    cases haccessors : accessorsOf g with
    | error e => exact iff_of_false (fun h => nomatch h) (by simp)
    | ok relations =>
      show Except.ok _ = Except.ok v ↔ _
      simp [eq_comm]

theorem created_of_create {name : String} {g : JoinGraph} {v : View} (h : create name g = .ok v) :
    v.Created := by
  obtain ⟨_, _, _, rfl⟩ := create_eq_ok_iff.mp h
  exact ⟨_, {}, h, rfl⟩

theorem Created.allBlank {v : View} (h : v.Created) : Text.allBlank v.name = false := by
  obtain ⟨_, _, hcreate, _⟩ := h
  exact (create_eq_ok_iff.mp hcreate).1

/-- The columns of a view are the output names of its query. -/
theorem columns_toEntity (v : View) : v.toEntity.columns = v.columns.values.map (·.output) :=
  Projection.names_ofColumns _

/-- A view without columns is one whose query has none. -/
theorem columns_eq_nil_iff (v : View) : v.toEntity.columns = [] ↔ v.columns.isEmpty = true := by
  rw [Registry.isEmpty, List.isEmpty_iff]
  exact List.map_eq_nil_iff

theorem key_mem_columns {v : View} (h : v.graph.Inv) {name : String}
    (hname : name ∈ v.toEntity.primaryKey) : name ∈ v.toEntity.columns := by
  obtain ⟨k, hk, rfl⟩ := List.mem_map.mp hname
  obtain ⟨n, hn, _⟩ := h.owner_of_mem_key hk
  refine Projection.mem_names_ofColumns.mpr ⟨⟨k.owner, n.tableAlias, k.name, k.name⟩, ?_, rfl⟩
  apply List.mem_append_right
  refine List.mem_filterMap.mpr ⟨k, hk, ?_⟩
  rw [keyColumn?, hn]
  rfl

/-- The sides of a view that was made agree with each other. -/
theorem coherent {v : View} (h : v.graph.Inv) (hv : v.Created) : v.Coherent := by
  constructor
  · show (v.columns.entries.map (·.1)).Pairwise (· < ·)
    rw [List.pairwise_map]
    exact Registry.sorted_ofList _
  · intro q hq
    obtain ⟨_, _, rfl⟩ := Compiler.compileWith_eq_ok_iff.mp hq
    rw [columns_toEntity]
    show (v.columns.values.map Compiler.selectItem).map (·.output) = _
    rw [List.map_map, List.map_map]
    rfl
  · exact fun name hname => key_mem_columns h hname
  · have htable : Text.allBlank v.toEntity.table = false := hv.allBlank
    have hkey : (v.toEntity.primaryKey.find? fun name => !v.toEntity.hasColumn name) = none := by
      rw [List.find?_eq_none]
      intro name hname
      rw [Entity.hasColumn_iff.mpr (key_mem_columns h hname)]
      decide
    rw [Entity.defect?, htable, hkey]
    cases v.toEntity.columns with
    | nil => simp
    | cons => simp
  · rw [Ne, columns_eq_nil_iff]
    unfold query
    simp only [ne_eq, Compiler.compileWith_eq_error_iff]
    simp

/-! ## Types -/

/-- Looking an output name up finds the column of that name. -/
theorem get?_columns_eq_some_iff {v : View} {output : String} {c : ProjectedColumn} :
    v.columns.get? output = some c ↔ c ∈ v.columns.values ∧ c.output = output :=
  Projection.get?_ofColumns_eq_some_iff

/-- A column has the type that its node declares. -/
theorem typedColumn?_eq_some_iff {g : JoinGraph} {c : ProjectedColumn} {output : String}
    {type : PseudoType} :
    typedColumn? g c = some (output, type) ↔
      c.output = output ∧ ∃ n, g.node? c.node = some n ∧
        n.entity.pseudoType? c.column = some type := by
  unfold typedColumn?
  cases hn : g.node? c.node with
  | none => simp
  | some n =>
    show (n.entity.pseudoType? c.column).bind _ = _ ↔ _
    cases htype : n.entity.pseudoType? c.column with
    | none => simp [htype]
    | some found => simp [htype]

/-- A view lists its columns with the types that their sources have. -/
theorem mem_manifest_iff {v : View} {output : String} {type : PseudoType} :
    (output, type) ∈ v.manifest ↔
      ∃ c n, v.columns.get? output = some c ∧ v.graph.node? c.node = some n ∧
        n.entity.pseudoType? c.column = some type := by
  rw [manifest, List.mem_filterMap]
  simp only [typedColumn?_eq_some_iff, get?_columns_eq_some_iff]
  constructor
  · intro ⟨c, hc, hout, n, hn, htype⟩
    exact ⟨c, n, ⟨hc, hout⟩, hn, htype⟩
  · intro ⟨c, n, ⟨hc, hout⟩, hn, htype⟩
    exact ⟨c, hc, hout, n, hn, htype⟩

/-- The type of a column of the view is that of its source. -/
theorem pseudoType?_eq_some_iff {v : View} {output : String} {type : PseudoType} :
    v.toEntity.pseudoType? output = some type ↔
      ∃ c n, v.columns.get? output = some c ∧ v.graph.node? c.node = some n ∧
        n.entity.pseudoType? c.column = some type := by
  rw [← mem_manifest_iff]
  show v.manifest.lookup output = some type ↔ _
  constructor
  · exact mem_of_lookup_eq_some
  · intro hmem
    cases hlookup : v.manifest.lookup output with
    | none =>
      rw [List.lookup_eq_none_iff] at hlookup
      exact absurd (hlookup _ hmem) (by simp)
    | some found =>
      -- an entry of the manifest is determined by its name, which has one source
      have hfound := mem_of_lookup_eq_some hlookup
      obtain ⟨c, n, hc, hn, htype⟩ := mem_manifest_iff.mp hmem
      obtain ⟨c', n', hc', hn', hfound⟩ := mem_manifest_iff.mp hfound
      rw [hc, Option.some.injEq] at hc'
      rw [← hc', hn, Option.some.injEq] at hn'
      rw [← hc', ← hn', htype] at hfound
      exact hfound.symm

/-- Over entities that know the types of their columns, a view does too. -/
theorem typed_of_fullyTyped {v : View} (h : v.graph.Inv)
    (htyped : ∀ i n, v.graph.node? i = some n → n.entity.FullyTyped) : v.Typed := by
  have hsource : ∀ c ∈ v.columns.values, ∃ n type, v.graph.node? c.node = some n ∧
      c.column ∈ n.entity.columns ∧ n.entity.pseudoType? c.column = some type := by
    intro c hc
    obtain ⟨n, hn, _, hcolumn⟩ := h.owned_of_mem_columns hc
    have hmem := Entity.hasColumn_iff.mp hcolumn
    obtain ⟨type, htype⟩ := Option.isSome_iff_exists.mp ((htyped c.node n hn c.column).mpr hmem)
    exact ⟨n, type, hn, hmem, htype⟩
  constructor
  · rw [columns_toEntity, manifest, List.map_filterMap, ← List.filterMap_eq_map]
    apply List.filterMap_congr
    intro c hc
    obtain ⟨n, type, hn, _, htype⟩ := hsource c hc
    rw [typedColumn?_eq_some_iff.mpr ⟨rfl, n, hn, htype⟩]
    rfl
  · intro output type hentry
    obtain ⟨c, n, hc, hn, htype⟩ := mem_manifest_iff.mp hentry
    obtain ⟨n', _, hn', hmem, _⟩ := hsource c (get?_columns_eq_some_iff.mp hc).1
    rw [hn, Option.some.injEq] at hn'
    rw [← hn'] at hmem
    exact ⟨c, n, hc, hn, hmem, htype⟩
  · intro name
    rw [columns_toEntity, Option.isSome_iff_exists, List.mem_map]
    simp only [pseudoType?_eq_some_iff, get?_columns_eq_some_iff]
    constructor
    · intro ⟨_, c, _, hc, _, _⟩
      exact ⟨c, hc⟩
    · intro ⟨c, hc, hout⟩
      obtain ⟨n, type, hn, _, htype⟩ := hsource c hc
      exact ⟨type, c, n, ⟨hc, hout⟩, hn, htype⟩

end View

/-- Declared tables, and views over graphs of such entities, to any depth. -/
inductive Entity.Nested : Entity → Prop
  | table {e : Entity} : e.Declared → Nested e
  | view {v : View} : v.graph.Reachable → v.Created →
    (∀ i n, v.graph.node? i = some n → Nested n.entity) → Nested v.toEntity

/-- Nested entities know the types of all their columns. -/
theorem Entity.Nested.fullyTyped {e : Entity} (h : e.Nested) : e.FullyTyped := by
  induction h with
  | table hdeclared => exact hdeclared.fullyTyped
  | view hreachable _ _ ih => exact (View.typed_of_fullyTyped hreachable.inv ih).fullyTyped

/-- A view over a graph that was built is a coherent entity. It is typed if the entities of its
graph are, as tables and views over them are, however deep. -/
theorem View.coherent_of_created {v : View} (h : v.graph.Reachable) (hv : v.Created) :
    v.Coherent ∧
    ((∀ i n, v.graph.node? i = some n → n.entity.FullyTyped) → v.Typed) ∧
    ((∀ i n, v.graph.node? i = some n → n.entity.Nested) → v.Typed ∧ v.toEntity.Nested) ∧
    ∀ e : Entity, e.Nested → e.FullyTyped := by
  refine ⟨View.coherent h.inv hv, View.typed_of_fullyTyped h.inv, ?_, fun e he => he.fullyTyped⟩
  intro hnested
  refine ⟨View.typed_of_fullyTyped h.inv ?_, .view h hv hnested⟩
  intro i n hn
  exact (hnested i n hn).fullyTyped

/-- Every node has one of the entities of the graph. -/
theorem JoinGraph.Inv.entity_mem {g : JoinGraph} (h : g.Inv) {i : Nat} {n : Node}
    (hn : g.node? i = some n) : n.entity ∈ g.placed.map (·.1.entity) :=
  List.mem_map.mpr ⟨(n, i), h.mem_placed.mpr hn, rfl⟩

namespace Warehouse

/-- The tables of the warehouse are nested entities. -/
theorem nested_of_declared {e : Entity} (h : e ∈ [widgets, parts, labels]) : e.Nested := by
  simp only [List.mem_cons, List.not_mem_nil, or_false] at h
  rcases h with rfl | rfl | rfl
  · exact .table (.withPrimaryKey _ (.withColumn _ _ (.withColumn _ _ (.withColumn _ _
      (.ofTable _)))))
  · exact .table (.withPrimaryKey _ (.withColumn _ _ (.withColumn _ _ (.ofTable _))))
  · exact .table (.withColumn _ _ (.withColumn _ _ (.ofTable _)))

theorem nested_stock : stock.toEntity.Nested := by
  have hok : (View.create "stock" graph).isOk = true := by decide +kernel
  obtain ⟨v, hv⟩ := exists_of_isOk hok
  have hcreated := View.created_of_create hv
  obtain ⟨_, relations, _, rfl⟩ := View.create_eq_ok_iff.mp hv
  show (View.toEntity ⟨"stock", graph, {}, relations⟩).Nested
  refine .view reachable_graph hcreated ?_
  intro i n hn
  have hmem := reachable_graph.inv.entity_mem hn
  rw [show graph.placed.map (·.1.entity) = [widgets, parts, labels] by decide +kernel] at hmem
  exact nested_of_declared hmem

/-- The view of labels stands on another view, and knows its types from the tables below that. -/
theorem coherent_tags :
    ∃ v, View.create "tags" tagged = .ok v ∧ tagged.Reachable ∧ v.Coherent ∧ v.Typed ∧
      v.toEntity.Nested := by
  have hok : (View.create "tags" tagged).isOk = true := by decide +kernel
  obtain ⟨v, hv⟩ := exists_of_isOk hok
  have hcreated := View.created_of_create hv
  obtain ⟨_, relations, _, rfl⟩ := View.create_eq_ok_iff.mp hv
  have hnodes : ∀ i n, tagged.node? i = some n → n.entity.Nested := by
    intro i n hn
    have hmem := reachable_tagged.inv.entity_mem hn
    rw [show tagged.placed.map (·.1.entity) = [stock.toEntity, labels] by decide +kernel,
      List.mem_cons] at hmem
    rcases hmem with hstock | hmem
    · rw [hstock]
      exact nested_stock
    · exact nested_of_declared (List.mem_cons_of_mem _ (List.mem_cons_of_mem _ hmem))
  have hcoherent := View.coherent_of_created reachable_tagged hcreated
  exact ⟨_, hv, reachable_tagged, hcoherent.1, (hcoherent.2.2.1 hnodes).1,
    (hcoherent.2.2.1 hnodes).2⟩

end Warehouse

end Joinery
