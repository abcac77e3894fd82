import Joinery.Proofs.View.Relations

/-!
# Renaming aliases

A function on texts renames the aliases of a graph, those of its nodes and those in its index, and
nothing else. What is read off a graph by position is read off the renamed graph alike: its
references, its nodes in declaration order, what they show, its key (`key_renamed`). Queries speak
of tables by their aliases, so the query for the renamed graph is the renamed query
(`compileWith_renamed`); and a view over it has the same columns, the same key and the same types,
and so is the same entity (`View.toEntity_renamed`).

None of this asks that different aliases get different names.
-/

namespace Joinery

/-! ## What is renamed -/

section

variable (f : String → String)

/-- The node under another alias; its relation stays. -/
def Node.renamed (n : Node) : Node :=
  { n with tableAlias := f n.tableAlias }

/-- The node at its place under another alias. -/
def PlacedNode.renamed (p : PlacedNode) : PlacedNode :=
  (p.1.renamed f, p.2)

/-- The reference between renamed nodes. -/
def Link.renamed (l : Link) : Link :=
  { l with parentNode := l.parentNode.renamed f, childNode := l.childNode.renamed f }

/-- The graph under other aliases, in its nodes and in the index. -/
def JoinGraph.renamed (g : JoinGraph) : JoinGraph :=
  { g with
    arena := { g.arena with nodes := g.arena.nodes.map (Node.renamed f) }
    aliasIndex := g.aliasIndex.map fun (name, i) => (f name, i) }

/-- An error with the aliases in it renamed. Most errors have none. -/
def DeclarationError.renamed : DeclarationError → DeclarationError
  | ambiguousColumn column candidates => ambiguousColumn column (candidates.map f)
  | selfRestriction localSide remoteSide tableAlias =>
    selfRestriction localSide remoteSide (f tableAlias)
  | e => e

/-- The projected column under another alias. -/
def ProjectedColumn.renamed (c : ProjectedColumn) : ProjectedColumn :=
  { c with tableAlias := f c.tableAlias }

mutual
/-- The expression with every qualifier renamed. -/
def Expr.renamed : Expr → Expr
  | column table name => column (table.map f) name
  | string value => string value
  | binary op left right => binary op (Expr.renamed left) (Expr.renamed right)
  | isIn subject members negated => isIn (Expr.renamed subject) (Expr.renamedAll members) negated
  | paren inner => paren (Expr.renamed inner)

/-- The expressions of a list, each with its qualifiers renamed. -/
def Expr.renamedAll : List Expr → List Expr
  | [] => []
  | e :: rest => Expr.renamed e :: Expr.renamedAll rest
end

/-- The select item with its qualifiers renamed; its output name stays. -/
def SelectItem.renamed (item : SelectItem) : SelectItem :=
  { item with expr := item.expr.renamed f }

def TableRef.renamed (t : TableRef) : TableRef :=
  { t with tableAlias := t.tableAlias.map f }

/-- The join of a renamed table under a renamed condition. -/
def Join.renamed (j : Join) : Join :=
  { j with table := j.table.renamed f, condition := j.condition.map (Expr.renamed f) }

def Query.renamed (q : Query) : Query :=
  { select := q.select.map (SelectItem.renamed f)
    source := q.source.map (TableRef.renamed f)
    joins := q.joins.map (Join.renamed f)
    filter := q.filter.map (Expr.renamed f) }

end

/-! ## Registries -/

namespace Registry

variable {α β : Type}

/-- Other values under the same names. -/
def mapValues (change : α → β) (r : Registry α) : Registry β :=
  ⟨r.entries.map fun (name, value) => (name, change value)⟩

/-- Claims are settled by names, whatever becomes of the values. -/
theorem claimIn_map (change : α → β) (name : String) (value : α) (entries : List (String × α)) :
    claimIn name (change value) (entries.map fun (name, value) => (name, change value)) =
      (claimIn name value entries).map fun (name, value) => (name, change value) := by
  induction entries with
  | nil => rfl
  | cons entry rest ih =>
    obtain ⟨n, v⟩ := entry
    rw [List.map_cons, claimIn, claimIn, ih]
    split
    next => rfl
    next =>
      split
      next => rfl
      next => rfl

/-- Which claim counts does not depend on the values. -/
theorem ofList_map (change : α → β) (claims : List (String × α)) :
    ofList (claims.map fun (name, value) => (name, change value)) =
      (ofList claims).mapValues change := by
  suffices ∀ r : Registry α,
      (claims.map fun (name, value) => (name, change value)).foldl
        (fun r (name, value) => r.claim name value) (r.mapValues change) =
      (claims.foldl (fun r (name, value) => r.claim name value) r).mapValues change from this empty
  induction claims with
  | nil => exact fun _ => rfl
  | cons claim rest ih =>
    intro r
    rw [List.map_cons, List.foldl_cons, List.foldl_cons, ← ih]
    congr 1
    exact congrArg Registry.mk (claimIn_map change claim.1 claim.2 r.entries)

theorem names_mapValues (change : α → β) (r : Registry α) :
    (r.mapValues change).names = r.names := by
  rw [names, mapValues, List.map_map]
  rfl

theorem values_mapValues (change : α → β) (r : Registry α) :
    (r.mapValues change).values = r.values.map change := by
  rw [values, mapValues, List.map_map, values, List.map_map]
  rfl

theorem isEmpty_mapValues (change : α → β) (r : Registry α) :
    (r.mapValues change).isEmpty = r.isEmpty :=
  List.isEmpty_map

end Registry

/-- Which columns stay does not depend on aliases. -/
theorem Projection.ofColumns_renamed (f : String → String) (columns : List ProjectedColumn) :
    ofColumns (columns.map (ProjectedColumn.renamed f)) =
      (ofColumns columns).mapValues (ProjectedColumn.renamed f) := by
  rw [ofColumns, ofColumns, ← Registry.ofList_map, List.map_map, List.map_map]
  rfl

/-! ## Graphs -/

namespace JoinGraph

variable (f : String → String)

theorem node?_renamed (g : JoinGraph) (i : Nat) :
    (g.renamed f).node? i = (g.node? i).map (Node.renamed f) :=
  List.getElem?_map

theorem link?_renamed (g : JoinGraph) (e : Nat) :
    (g.renamed f).link? e = (g.link? e).map (Link.renamed f) := by
  unfold link?
  show ((g.arena.edge? e).bind fun edge => ((g.renamed f).node? edge.source).bind fun _ =>
    ((g.renamed f).node? edge.target).bind fun _ => some _) = _
  cases g.arena.edge? e with
  | none => rfl
  | some edge =>
    simp only [Option.bind_some, node?_renamed]
    cases hsource : g.node? edge.source with
    | none => simp [hsource]
    | some parentNode =>
      cases htarget : g.node? edge.target with
      | none => simp [hsource, htarget]
      | some childNode => simp [hsource, htarget, Link.renamed]

/-- The references are renamed in their order. -/
theorem links_renamed (g : JoinGraph) : (g.renamed f).links = g.links.map (Link.renamed f) := by
  rw [links, links, List.map_filterMap]
  exact List.filterMap_congr fun e _ => g.link?_renamed f e

theorem rootNode_renamed {g : JoinGraph} (h : g.Inv) :
    (g.renamed f).rootNode = g.rootNode.renamed f := by
  unfold rootNode
  show ((g.renamed f).node? g.root).getD default = _
  rw [node?_renamed, h.node?_root]
  rfl

/-- The nodes in declaration order. Without a root the graph would answer with an empty node, and
that one is not renamed. -/
theorem placed_renamed {g : JoinGraph} (h : g.Inv) :
    (g.renamed f).placed = g.placed.map (PlacedNode.renamed f) := by
  rw [placed, rootNode_renamed f h, joined, links_renamed, List.map_map, placed, joined,
    List.map_cons, List.map_map]
  rfl

/-- A renamed graph shows the same columns under the new aliases. -/
theorem shown_renamed {g : JoinGraph} (h : g.Inv) :
    (g.renamed f).shown = g.shown.map (ProjectedColumn.renamed f) := by
  rw [shown, placed_renamed f h, List.flatMap_map, shown, List.map_flatMap]
  congr 1
  funext p
  rw [shownBy, shownBy, List.map_map]
  rfl

/-- A renamed graph projects the same columns under the new aliases. -/
theorem projection_renamed {g : JoinGraph} (h : g.Inv) :
    (g.renamed f).projection = g.projection.mapValues (ProjectedColumn.renamed f) := by
  rw [projection, shown_renamed f h, Projection.ofColumns_renamed]
  rfl

/-- The key speaks of nodes by their positions alone. -/
theorem key_renamed {g : JoinGraph} (h : g.Inv) : (g.renamed f).key = g.key := by
  have hreferences : (g.renamed f).referenceKey = g.referenceKey := by
    rw [referenceKey, links_renamed, List.flatMap_map]
    rfl
  have hroot : (g.renamed f).rootKey = g.rootKey := by
    rw [rootKey, rootNode_renamed f h]
    rfl
  rw [key, hreferences, hroot]
  rfl

end JoinGraph

/-! ## Queries -/

theorem Expr.all?_renamed (f : String → String) (es : List Expr) :
    all? (es.map (renamed f)) = (all? es).map (renamed f) := by
  cases es with
  | nil => rfl
  | cons e rest =>
    show some ((rest.map (renamed f)).foldl (binary .and) (e.renamed f)) =
      some ((rest.foldl (binary .and) e).renamed f)
    induction rest generalizing e with
    | nil => rfl
    | cons next rest ih => exact ih (binary .and e next)

/-- The predicate of a comparison is renamed by its sides. -/
theorem Comparison.predicate_renamed (f : String → String) (form : NotEqualsForm) (c : Comparison)
    (left right : Expr) :
    (c.predicate form left right).renamed f =
      c.predicate form (left.renamed f) (right.renamed f) := by
  cases c with
  | notEquals => cases form <;> rfl
  | equals | like | isIn => rfl

namespace Compiler

variable (f : String → String) (c : Compiler)

/-- A pinned column is qualified by the new alias. -/
theorem columnExpr?_renamed (g : JoinGraph) (column : PinnedColumn) :
    columnExpr? (g.renamed f) column = (columnExpr? g column).map (Expr.renamed f) := by
  rw [columnExpr?, g.node?_renamed, Option.map_map, columnExpr?, Option.map_map]
  rfl

/-- A restriction states the same of the renamed columns. -/
theorem predicate?_renamed (g : JoinGraph) (r : PinnedRestriction) :
    c.predicate? (g.renamed f) r = (c.predicate? g r).map (Expr.renamed f) := by
  unfold predicate?
  rw [columnExpr?_renamed, columnExpr?_renamed]
  cases columnExpr? g r.localSide with
  | none => rfl
  | some left =>
    cases columnExpr? g r.remoteSide with
    | none => rfl
    | some right => exact congrArg some (r.comparison.predicate_renamed f c.notEquals left right).symm

theorem condition_renamed (g : JoinGraph) (l : Link) :
    c.condition (g.renamed f) (l.renamed f) = (c.condition g l).map (Expr.renamed f) := by
  unfold condition
  show (if l.childNode.kind.takesCondition then _ else _) = _
  split
  next =>
    have hpredicates : l.reference.pinned.filterMap (c.predicate? (g.renamed f)) =
        (l.reference.pinned.filterMap (c.predicate? g)).map (Expr.renamed f) := by
      rw [List.map_filterMap]
      exact List.filterMap_congr fun r _ => c.predicate?_renamed f g r
    show (Expr.all? (l.reference.pinned.filterMap (c.predicate? (g.renamed f)))).map Expr.paren = _
    rw [hpredicates, Expr.all?_renamed, Option.map_map, Option.map_map]
    rfl
  next => rfl

/-- The query of a renamed graph is the renamed query. -/
theorem queryOf_renamed {g : JoinGraph} (h : g.Inv) (p : Projection) :
    c.queryOf (g.renamed f) (p.mapValues (ProjectedColumn.renamed f)) =
      (c.queryOf g p).renamed f := by
  have hselect : (p.mapValues (ProjectedColumn.renamed f)).values.map selectItem =
      (p.values.map selectItem).map (SelectItem.renamed f) := by
    rw [Registry.values_mapValues, List.map_map, List.map_map]
    rfl
  have hjoins : (g.renamed f).links.map (c.joinOf (g.renamed f)) =
      (g.links.map (c.joinOf g)).map (Join.renamed f) := by
    rw [JoinGraph.links_renamed, List.map_map, List.map_map]
    refine List.map_congr_left fun l _ => ?_
    show Join.mk _ _ (c.condition (g.renamed f) (l.renamed f)) = Join.mk _ _ _
    rw [condition_renamed]
    rfl
  rw [queryOf, hselect, JoinGraph.rootNode_renamed f h, hjoins]
  rfl

/-- A renamed graph compiles where the graph does, and fails as the graph fails. -/
theorem compileWith_renamed {g : JoinGraph} (h : g.Inv) (p : Projection) :
    c.compileWith (g.renamed f) (p.mapValues (ProjectedColumn.renamed f)) =
      (c.compileWith g p).map (Query.renamed f) := by
  have hunsupported : c.unsupported? (g.renamed f).links =
      (c.unsupported? g.links).map (Link.renamed f) := by
    rw [JoinGraph.links_renamed, unsupported?, List.find?_map]
    rfl
  rw [compileWith_eq, compileWith_eq, Registry.isEmpty_mapValues, JoinGraph.rootNode_renamed f h,
    hunsupported, queryOf_renamed f c h]
  split
  next => rfl
  next =>
    cases c.unsupported? g.links with
    | none => rfl
    | some l => rfl

/-- A graph compiles exactly if its renamed copy does, and to the renamed query. -/
theorem compile_renamed {g : JoinGraph} (h : g.Inv) :
    c.compile (g.renamed f) = (c.compile g).map (Query.renamed f) := by
  rw [compile, JoinGraph.projection_renamed f h]
  exact c.compileWith_renamed f h g.projection

end Compiler

/-! ## Views -/

namespace View

variable {f : String → String} {v v' : View}

/-- A column of the key is renamed with its node. -/
theorem keyColumn?_renamed (f : String → String) (g : JoinGraph) (k : KeyColumn) :
    keyColumn? (g.renamed f) k = (keyColumn? g k).map (ProjectedColumn.renamed f) := by
  rw [keyColumn?, g.node?_renamed, Option.map_map, keyColumn?, Option.map_map]
  rfl

/-- A view of a renamed graph has the same columns under the new aliases. -/
theorem columns_renamed (h : v.graph.Inv) (hgraph : v'.graph = v.graph.renamed f) :
    v'.columns = v.columns.mapValues (ProjectedColumn.renamed f) := by
  have hkey : (v.graph.renamed f).key.filterMap (keyColumn? (v.graph.renamed f)) =
      (v.graph.key.filterMap (keyColumn? v.graph)).map (ProjectedColumn.renamed f) := by
    rw [JoinGraph.key_renamed f h, List.map_filterMap]
    exact List.filterMap_congr fun k _ => keyColumn?_renamed f v.graph k
  rw [columns, key, hgraph, hkey, JoinGraph.shown_renamed f h, ← List.map_append,
    Projection.ofColumns_renamed]
  rfl

/-- The type of a column does not depend on aliases. -/
theorem typedColumn?_renamed (f : String → String) (g : JoinGraph) (c : ProjectedColumn) :
    typedColumn? (g.renamed f) (c.renamed f) = typedColumn? g c := by
  show (((g.renamed f).node? c.node).bind fun n => (n.entity.pseudoType? c.column).bind fun type =>
    some (c.output, type)) = _
  rw [g.node?_renamed, Option.bind_map]
  rfl

/-- The types of a view's columns do not depend on aliases. -/
theorem manifest_renamed (h : v.graph.Inv) (hgraph : v'.graph = v.graph.renamed f) :
    v'.manifest = v.manifest := by
  rw [manifest, columns_renamed h hgraph, Registry.values_mapValues, List.filterMap_map, hgraph]
  exact List.filterMap_congr fun c _ => typedColumn?_renamed f v.graph c

/-- To whoever joins it, a view over a renamed graph is no other than the view. -/
theorem toEntity_renamed (h : v.graph.Inv) (hgraph : v'.graph = v.graph.renamed f)
    (hname : v'.name = v.name) : v'.toEntity = v.toEntity := by
  rw [toEntity, hname, columns_renamed h hgraph, Registry.names_mapValues,
    manifest_renamed h hgraph, hgraph, JoinGraph.keyNames, JoinGraph.key_renamed f h]
  rfl

/-- The query of a view is renamed with its graph. -/
theorem query_renamed (h : v.graph.Inv) (hgraph : v'.graph = v.graph.renamed f)
    (hcompiler : v'.compiler = v.compiler) : v'.query = v.query.map (Query.renamed f) := by
  rw [query, columns_renamed h hgraph, hgraph, hcompiler]
  exact v.compiler.compileWith_renamed f h v.columns

end View

end Joinery
