import Joinery.Proofs.View.Keys
import Mathlib.Data.List.Induction

/-!
# Views that show an entity as it is

A view over an entity alone that shows every column under its own name answers as that entity does,
except that the columns ascend (`View.showsAs_showingAll`): the key claims only names that are taken
by columns of the same name. What it answers with is accepted as an entity again and has a type for
each column, so that views can be put on top of each other in this way. A second one has nothing
left to put in order and changes only the name (`View.ShowsAs.toEntity_eq`), and by induction on the
layers neither do any more of them.

What a table answers with is in turn read off its declarations. A column is there if one of them
names it, and has the type of the last one that does (`Entity.pseudoType?_ofDeclarations`).

The functions in question are `View.create` and `View.toEntity`.
-/

namespace Joinery

/-! ## Declarations -/

/-- One step in the declaration of a table. -/
inductive Declaration
  | column (name : String) (type : PseudoType)
  | primaryKey (columns : List String)
  | foreignKey (column : String) (target : ForeignKey)
  deriving DecidableEq, Repr

namespace Entity

/-- The entity with one declaration more. -/
def declare (e : Entity) : Declaration → Entity
  | .column name type => e.withColumn name type
  | .primaryKey columns => e.withPrimaryKey columns
  | .foreignKey column target => e.withForeignKey column target

/-- The table that a sequence of declarations makes. -/
def ofDeclarations (table : String) (declarations : List Declaration) : Entity :=
  declarations.foldl declare (ofTable table)

/-- The last declaration is made of what the others have come to. -/
theorem ofDeclarations_append (table : String) (declarations : List Declaration)
    (d : Declaration) :
    ofDeclarations table (declarations ++ [d]) = (ofDeclarations table declarations).declare d :=
  List.foldl_concat ..

theorem declared_ofDeclarations (table : String) (declarations : List Declaration) :
    (ofDeclarations table declarations).Declared := by
  induction declarations using List.reverseRecOn with
  | nil => exact .ofTable table
  | append_singleton declarations d ih =>
    rw [ofDeclarations_append]
    cases d with
    | column name type => exact .withColumn name type ih
    | primaryKey columns => exact .withPrimaryKey columns ih
    | foreignKey column target => exact .withForeignKey column target ih

/-- The last declaration of a column gives it the type. -/
def LastDeclared (declarations : List Declaration) (name : String) (type : PseudoType) : Prop :=
  ∃ before after, declarations = before ++ .column name type :: after ∧
    ∀ other, Declaration.column name other ∉ after

/-- The last type of a column is that of the last declaration, if this is about the column at
all. -/
theorem lastDeclared_append {declarations : List Declaration} {d : Declaration} {name : String}
    {type : PseudoType} :
    LastDeclared (declarations ++ [d]) name type ↔
      d = .column name type ∨ (∀ other, d ≠ .column name other) ∧
        LastDeclared declarations name type := by
  constructor
  · rintro ⟨before, after, heq, hlast⟩
    rcases List.eq_nil_or_concat' after with rfl | ⟨after, last, rfl⟩
    · exact .inl (List.singleton_inj.mp (List.append_inj' heq rfl).2)
    · rw [← List.cons_append, ← List.append_assoc] at heq
      obtain ⟨hinit, hd⟩ := List.append_inj' heq rfl
      rw [List.singleton_inj] at hd
      refine .inr ⟨?_, before, after, hinit, ?_⟩
      · rintro other rfl
        exact hlast other (List.mem_append_right _ (List.mem_singleton.mpr hd))
      · exact fun other hother => hlast other (List.mem_append_left _ hother)
  · rintro (rfl | ⟨hother, before, after, rfl, hlast⟩)
    · exact ⟨declarations, [], rfl, fun _ => List.not_mem_nil⟩
    · refine ⟨before, after ++ [d], by rw [List.append_assoc, List.cons_append], ?_⟩
      intro other hmem
      rcases List.mem_append.mp hmem with hafter | hd
      · exact hlast other hafter
      · exact hother other (List.mem_singleton.mp hd).symm

/-- The type of a column is the one that it was declared with last. -/
theorem pseudoType?_ofDeclarations {table : String} {declarations : List Declaration}
    {name : String} {type : PseudoType} :
    (ofDeclarations table declarations).pseudoType? name = some type ↔
      LastDeclared declarations name type := by
  induction declarations using List.reverseRecOn with
  | nil =>
    refine iff_of_false nofun ?_
    rintro ⟨before, after, heq, _⟩
    exact absurd heq (by simp)
  | append_singleton declarations d ih =>
    rw [ofDeclarations_append, lastDeclared_append, ← ih]
    cases d with
    | column other given =>
      show List.lookup name ((other, given) :: (ofDeclarations table declarations).types) = _ ↔ _
      rw [List.lookup_cons, Declaration.column.injEq]
      by_cases heq : name = other
      · rw [heq, beq_self_eq_true]
        simp
      · rw [beq_eq_false_iff_ne.mpr heq]
        simp [Ne.symm heq, pseudoType?]
    | primaryKey columns =>
      show (ofDeclarations table declarations).pseudoType? name = _ ↔ _
      simp
    | foreignKey column target =>
      show (ofDeclarations table declarations).pseudoType? name = _ ↔ _
      simp

/-- A column has a last type exactly if it was declared. -/
theorem exists_lastDeclared_iff {declarations : List Declaration} {name : String} :
    (∃ type, LastDeclared declarations name type) ↔
      ∃ type, Declaration.column name type ∈ declarations := by
  constructor
  · rintro ⟨type, before, after, rfl, _⟩
    exact ⟨type, List.mem_append_right _ (List.mem_cons_self ..)⟩
  · rintro ⟨type, hmem⟩
    induction declarations using List.reverseRecOn with
    | nil => exact absurd hmem List.not_mem_nil
    | append_singleton declarations d ih =>
      simp only [lastDeclared_append]
      by_cases hd : ∃ other, d = .column name other
      · obtain ⟨other, hd⟩ := hd
        exact ⟨other, .inl hd⟩
      · rcases List.mem_append.mp hmem with hbefore | hlast
        · obtain ⟨last, hlast⟩ := ih hbefore
          exact ⟨last, .inr ⟨fun other heq => hd ⟨other, heq⟩, hlast⟩⟩
        · exact absurd ⟨type, (List.mem_singleton.mp hlast).symm⟩ hd

/-- The columns of a table are those that it was declared with. -/
theorem mem_columns_ofDeclarations {table : String} {declarations : List Declaration}
    {name : String} :
    name ∈ (ofDeclarations table declarations).columns ↔
      ∃ type, Declaration.column name type ∈ declarations := by
  rw [← (declared_ofDeclarations table declarations).fullyTyped, Option.isSome_iff_exists]
  simp only [pseudoType?_ofDeclarations]
  exact exists_lastDeclared_iff

end Entity

/-! ## Views over an entity alone -/

/-- What a view over an entity is made with. -/
structure Layer where
  name : String
  aliases : AliasIssuer
  compiler : Compiler

namespace View

/-- The view over an entity alone that shows all its columns. -/
def ofEntity (e : Entity) (l : Layer) : Except DeclarationError View := do
  let g ← (JoinGraph.start l.aliases e).1
  let shown := g.projectAll g.root
  shown.outcome
  let v ← create l.name shown.graph
  return v.withCompiler l.compiler

/-- The topmost of such views, one for each layer, on top of a view. -/
def stack (v : View) : List Layer → Except DeclarationError View
  | [] => .ok v
  | l :: rest => do stack (← ofEntity v.toEntity l) rest

/-- The view answers as the entity does, with the columns in ascending order. -/
structure ShowsAs (v : View) (e : Entity) : Prop where
  ascending : v.toEntity.columns.Pairwise (· < ·)
  columns : ∀ name, name ∈ v.toEntity.columns ↔ name ∈ e.columns
  hasColumn : ∀ name, v.toEntity.hasColumn name = e.hasColumn name
  key : v.toEntity.primaryKey = e.primaryKey
  types : ∀ name, v.toEntity.pseudoType? name = e.pseudoType? name

end View

namespace JoinGraph

/-- The graph of such a view. -/
def showingAll (e : Entity) (tableAlias : String) : JoinGraph :=
  (ofRoot (rootOf e tableAlias)).showAt 0 (Node.everyColumn e)

/-- An entity that is accepted starts a graph that shows all of it. -/
theorem reachable_showingAll {e : Entity} (h : e.defect? = none) (aliases : AliasIssuer) :
    (showingAll e (aliases.next e.table .root).1).Reachable :=
  .projectAll 0 (.start (start_eq_ok h))

theorem node?_showingAll (e : Entity) (tableAlias : String) (i : Nat) :
    (showingAll e tableAlias).node? i =
      if i = 0 then some ((rootOf e tableAlias).showing (Node.everyColumn e)) else none := by
  rcases i with _ | i
  · rfl
  · rfl

theorem shown_showingAll (e : Entity) (tableAlias : String) :
    (showingAll e tableAlias).shown = e.columns.map fun name => ⟨0, tableAlias, name, name⟩ := by
  show (Node.everyColumn e).map _ ++ [] = _
  rw [List.append_nil, Node.everyColumn, List.map_map]
  rfl

theorem keyNames_showingAll (e : Entity) (tableAlias : String) :
    (showingAll e tableAlias).keyNames = e.primaryKey := by
  show (e.primaryKey.map _).map _ = _
  rw [List.map_map]
  exact List.map_id _

end JoinGraph

namespace View

/-- An accepted entity has a view under every name that is not blank. -/
theorem ofEntity_eq_ok {e : Entity} {l : Layer} (haccepted : e.defect? = none)
    (hname : Text.allBlank l.name = false) :
    ofEntity e l = .ok ⟨l.name, JoinGraph.showingAll e (l.aliases.next e.table .root).1, l.compiler,
      .empty⟩ := by
  rw [ofEntity, JoinGraph.start_eq_ok haccepted]
  show (create l.name (JoinGraph.showingAll e (l.aliases.next e.table .root).1)).map
    (·.withCompiler l.compiler) = _
  rw [create_eq_ok_iff.mpr ⟨hname, .empty, rfl, rfl⟩]
  rfl

section Alone

variable {e : Entity} {v : View} {tableAlias : String}

/-- The key adds no column, since the entity has the columns of its key. -/
theorem mem_columns_showingAll (hgraph : v.graph = JoinGraph.showingAll e tableAlias)
    (haccepted : e.defect? = none) {name : String} :
    name ∈ v.toEntity.columns ↔ name ∈ e.columns := by
  refine Projection.mem_names_ofColumns.trans ?_
  rw [key, hgraph, JoinGraph.shown_showingAll]
  constructor
  · rintro ⟨c, hc, rfl⟩
    rcases List.mem_append.mp hc with hshown | hkey
    · obtain ⟨name, hname, rfl⟩ := List.mem_map.mp hshown
      exact hname
    · obtain ⟨k, hk, hc⟩ := List.mem_filterMap.mp hkey
      obtain ⟨n, _, rfl⟩ := Option.map_eq_some_iff.mp hc
      have hname : k.name ∈ e.primaryKey := by
        rw [← JoinGraph.keyNames_showingAll e tableAlias]
        exact List.mem_map_of_mem hk
      exact Entity.hasColumn_iff.mp ((Entity.of_defect?_eq_none haccepted).2 _ hname)
  · intro hname
    exact ⟨⟨0, tableAlias, name, name⟩, List.mem_append_left _ (List.mem_map_of_mem hname), rfl⟩

/-- The view has each column from its only node. -/
theorem get?_columns_showingAll (hgraph : v.graph = JoinGraph.showingAll e tableAlias)
    {name : String} (hname : name ∈ e.columns) :
    v.columns.get? name = some ⟨0, tableAlias, name, name⟩ := by
  rw [get?_columns, hgraph, JoinGraph.shownAs?, JoinGraph.shown_showingAll, List.find?_map]
  show ((e.columns.find? (· == name)).map _).or _ = _
  rw [find?_beq_eq_some_iff.mpr ⟨hname, rfl⟩]
  rfl

/-- A view over an entity that is accepted and knows its types answers as the entity does, so it is
accepted and knows its types as well. -/
theorem showsAs_showingAll (hgraph : v.graph = JoinGraph.showingAll e tableAlias)
    (haccepted : e.defect? = none) (htyped : e.FullyTyped) (hinv : v.graph.Inv)
    (hcreated : v.Created) : v.ShowsAs e ∧ v.toEntity.defect? = none ∧ v.Typed := by
  have hcolumns : ∀ name, name ∈ v.toEntity.columns ↔ name ∈ e.columns :=
    fun name => mem_columns_showingAll hgraph haccepted
  have hview : v.Typed := by
    refine typed_of_fullyTyped hinv fun i n hn => ?_
    rw [hgraph, JoinGraph.node?_showingAll] at hn
    split at hn
    next => exact Option.some.inj hn ▸ htyped
    next => exact nomatch hn
  refine ⟨⟨(coherent hinv hcreated).ascending, hcolumns, ?_, ?_, ?_⟩, ?_, hview⟩
  · intro name
    rw [Bool.eq_iff_iff, Entity.hasColumn_iff, Entity.hasColumn_iff]
    exact hcolumns name
  · show v.graph.keyNames = e.primaryKey
    rw [hgraph, JoinGraph.keyNames_showingAll]
  · intro name
    by_cases hname : name ∈ e.columns
    · have hnode : v.graph.node? 0 = some _ := hgraph ▸ JoinGraph.node?_showingAll e tableAlias 0
      exact pseudoType?_of_get? (get?_columns_showingAll hgraph hname) hnode
    · -- neither knows a type for what is no column
      have hnone : e.pseudoType? name = none := by
        rw [← Option.not_isSome_iff_eq_none, htyped]
        exact hname
      rw [hnone, ← Option.not_isSome_iff_eq_none, hview.fullyTyped, hcolumns]
      exact hname
  · rw [(coherent hinv hcreated).accepted]
    intro hnil
    refine (Entity.of_defect?_eq_none haccepted).1 (List.eq_nil_iff_forall_not_mem.mpr ?_)
    intro name hname
    rw [← hcolumns, hnil] at hname
    exact List.not_mem_nil hname

end Alone

/-- A view of an accepted entity shows it as it is, and is itself accepted. -/
theorem exists_ofEntity {e : Entity} (haccepted : e.defect? = none) (htyped : e.FullyTyped)
    {l : Layer} (hname : Text.allBlank l.name = false) :
    ∃ v, ofEntity e l = .ok v ∧ v.ShowsAs e ∧ v.toEntity.defect? = none ∧ v.Typed := by
  refine ⟨_, ofEntity_eq_ok haccepted hname, showsAs_showingAll rfl haccepted htyped
    (JoinGraph.reachable_showingAll haccepted l.aliases).inv ?_⟩
  exact ⟨_, l.compiler, create_eq_ok_iff.mpr ⟨hname, .empty, rfl, rfl⟩, rfl⟩

/-! ## Layers -/

/-- Where names ascend, what is found for each name is all that there is. -/
theorem eq_of_lookup_eq {α : Type} {first second : List (String × α)}
    (hfirst : (first.map (·.1)).Pairwise (· < ·)) (hsecond : (second.map (·.1)).Pairwise (· < ·))
    (h : ∀ name, first.lookup name = second.lookup name) : first = second := by
  have hlookup : ∀ entries : List (String × α), (entries.map (·.1)).Pairwise (· < ·) →
      ∀ entry : String × α, entries.lookup entry.1 = some entry.2 ↔ entry ∈ entries :=
    fun entries hentries entry => lookup_eq_some_iff_mem (hentries.imp String.ne_of_lt)
  refine eq_of_ascending (List.pairwise_map.mp hfirst) (List.pairwise_map.mp hsecond) ?_
  intro entry
  rw [← hlookup first hfirst, ← hlookup second hsecond, h]

/-- A view over a view is that view under another name. -/
theorem ShowsAs.toEntity_eq {v w : View} (h : w.ShowsAs v.toEntity)
    (hv : v.toEntity.columns.Pairwise (· < ·)) (hvtyped : v.Typed) (hwtyped : w.Typed) :
    w.toEntity = { v.toEntity with table := w.name } := by
  have hcolumns : w.toEntity.columns = v.toEntity.columns :=
    eq_of_ascending h.ascending hv h.columns
  have hmanifest : w.manifest = v.manifest := by
    refine eq_of_lookup_eq ?_ ?_ h.types
    · rw [hwtyped.manifest]
      exact h.ascending
    · rw [hvtyped.manifest]
      exact hv
  have hkey := h.key
  show Entity.mk w.name w.toEntity.columns w.toEntity.primaryKey w.manifest [] = _
  rw [hcolumns, hkey, hmanifest]
  rfl

/-- However many views are put on top of a view, the topmost is that view under another name. -/
theorem exists_stack {v : View} (hascending : v.toEntity.columns.Pairwise (· < ·))
    (haccepted : v.toEntity.defect? = none) (htyped : v.Typed) {layers : List Layer}
    (hnames : ∀ l ∈ layers, Text.allBlank l.name = false) :
    ∃ w, v.stack layers = .ok w ∧ w.toEntity = { v.toEntity with table := w.name } := by
  induction layers generalizing v with
  | nil => exact ⟨v, rfl, rfl⟩
  | cons l rest ih =>
    obtain ⟨hname, hrest⟩ := List.forall_mem_cons.mp hnames
    obtain ⟨u, hmade, hshows, huaccepted, hutyped⟩ :=
      exists_ofEntity haccepted htyped.fullyTyped hname
    obtain ⟨w, hstack, hw⟩ := ih hshows.ascending huaccepted hutyped hrest
    refine ⟨w, ?_, ?_⟩
    · rw [stack, hmade]
      exact hstack
    · rw [hw, hshows.toEntity_eq hascending htyped hutyped]

/-- The view over a table that shows all its columns has the declared columns in ascending order,
the key of the table, and the types that the columns were declared with last; and views on top of
it change nothing but the name. -/
theorem transparent_of_ofDeclarations {table : String} {declarations : List Declaration}
    (haccepted : (Entity.ofDeclarations table declarations).defect? = none) {first : Layer}
    (hname : Text.allBlank first.name = false) :
    ∃ v, ofEntity (Entity.ofDeclarations table declarations) first = .ok v ∧
      v.ShowsAs (Entity.ofDeclarations table declarations) ∧
      (∀ name, name ∈ v.toEntity.columns ↔ ∃ type, Declaration.column name type ∈ declarations) ∧
      (∀ name type, v.toEntity.pseudoType? name = some type ↔
        Entity.LastDeclared declarations name type) ∧
      ∀ layers : List Layer, (∀ l ∈ layers, Text.allBlank l.name = false) →
        ∃ w, v.stack layers = .ok w ∧ w.toEntity = { v.toEntity with table := w.name } := by
  obtain ⟨v, hmade, hshows, hvaccepted, hvtyped⟩ := exists_ofEntity haccepted
    (Entity.declared_ofDeclarations table declarations).fullyTyped hname
  refine ⟨v, hmade, hshows, fun name => ?_, fun name type => ?_, fun layers hnames => ?_⟩
  · exact (hshows.columns name).trans Entity.mem_columns_ofDeclarations
  · rw [hshows.types]
    exact Entity.pseudoType?_ofDeclarations
  · exact exists_stack hshows.ascending hvaccepted hvtyped hnames

end View

namespace Warehouse

/-- Crates, of which the size is declared twice. -/
def crates : List Declaration :=
  [.column "size" .text, .column "id" .integer, .primaryKey ["size", "id"],
    .column "size" .integer, .column "content" .text]

/-- A stack of views over crates, one of whose columns was declared twice. -/
theorem transparent_crates :
    (Entity.ofDeclarations "crates" crates).defect? = none ∧
      ∃ v w,
        View.ofEntity (Entity.ofDeclarations "crates" crates) ⟨"first", .standard, {}⟩ = .ok v ∧
        v.ShowsAs (Entity.ofDeclarations "crates" crates) ∧
        v.toEntity.pseudoType? "size" = some .integer ∧
        v.stack [⟨"second", .standard, {}⟩, ⟨"third", .standard, {}⟩] = .ok w ∧
        w.toEntity = { v.toEntity with table := w.name } := by
  have haccepted : (Entity.ofDeclarations "crates" crates).defect? = none := by decide +kernel
  have hname : Text.allBlank (Layer.mk "first" .standard {}).name = false := by decide +kernel
  obtain ⟨v, hmade, hshows, _, htypes, hstack⟩ :=
    View.transparent_of_ofDeclarations haccepted hname
  have hnames : ∀ l ∈ [(⟨"second", .standard, {}⟩ : Layer), ⟨"third", .standard, {}⟩],
      Text.allBlank l.name = false := by decide +kernel
  obtain ⟨w, hw, heq⟩ := hstack _ hnames
  refine ⟨haccepted, v, w, hmade, hshows, ?_, hw, heq⟩
  rw [htypes]
  exact ⟨crates.take 3, [.column "content" .text], rfl, by simp⟩

-- the key keeps its order, unlike the columns
example : (View.ofEntity (Entity.ofDeclarations "crates" crates) ⟨"first", .standard, {}⟩).map
    (fun v => (v.toEntity.columns, v.toEntity.primaryKey)) =
      .ok (["content", "id", "size"], ["size", "id"]) := by
  decide +kernel

end Warehouse

end Joinery
