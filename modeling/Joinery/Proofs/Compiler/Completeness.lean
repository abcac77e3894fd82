import Joinery.Compiler
import Joinery.Proofs.Compiler.FirstClaims
import Joinery.Proofs.Sql.Atoms
import Mathlib.Data.List.Forall2

/-!
# A compiled query says all that its graph does

On its way into a query a reference passes several points where it, or one of its
restrictions, could be left out without notice: a link whose ends are not found, a pinned
restriction whose nodes are not found, a conjunction of nothing. `Compiler.Represents` says
that nothing was: the select list has every output once, there is a join for each reference,
and the conjuncts of its condition are its restrictions one by one.

None of this is said with the functions that compile. What a comparison comes to is spelled out
case by case in `Comparison.Says`, and the columns of the select list are found by the positions of
the nodes that show them (`Shows`). Nor is what a dialect lacks, which is `Dialect.Lacks`.

`compile_complete` puts the two ways in which compilation fails beside that, each with the
exact graphs for which it does. The graph behind it is any that steps lead to.

The function in question is `Compiler.compile`.
-/

namespace Joinery

/-- The dialect has no joins of the kind. -/
inductive Dialect.Lacks : Dialect → JoinKind → Prop
  | natural : Lacks .tsql .natural

theorem Dialect.lacks_iff {d : Dialect} {k : JoinKind} :
    d.Lacks k ↔ d = .tsql ∧ k = .natural := by
  constructor
  · intro hlacks
    cases hlacks with
    | natural => exact ⟨rfl, rfl⟩
  · intro hboth
    obtain ⟨rfl, rfl⟩ := hboth
    exact .natural

/-- The predicate says of two expressions what the comparison does. -/
inductive Comparison.Says (left right : Expr) : NotEqualsForm → Comparison → Expr → Prop
  | equals {form : NotEqualsForm} : Says left right form .equals (.binary .eq left right)
  | differs : Says left right .negated .notEquals (.binary .ne left right)
  -- in the older form an inequality is written as its opposite
  | legacy : Says left right .legacy .notEquals (.binary .eq left right)
  -- the right text stands in the left one, with anything before it and behind it
  | contains {form : NotEqualsForm} : Says left right form .like
      (.binary .like left (.binary .concat (.binary .concat (.string "%") right) (.string "%")))
  | member {form : NotEqualsForm} : Says left right form .isIn (.isIn left [right] false)

/-- Each comparison comes to one predicate. -/
theorem Comparison.says_iff {left right : Expr} {form : NotEqualsForm} {c : Comparison} {e : Expr} :
    c.Says left right form e ↔ e = c.predicate form left right := by
  constructor
  · intro hsays
    cases hsays with
    | equals | differs | legacy | contains | member => rfl
  · intro he
    rw [he]
    cases c with
    | equals => exact .equals
    | notEquals =>
      cases form with
      | negated => exact .differs
      | legacy => exact .legacy
    | like => exact .contains
    | isIn => exact .member

namespace JoinGraph

/-- No node of the graph shows a column. -/
def Silent (g : JoinGraph) : Prop :=
  ∀ i n, g.node? i = some n → n.projection = []

/-- The projection is empty exactly if no node shows a column. -/
theorem Inv.isEmpty_projection_iff {g : JoinGraph} (h : g.Inv) :
    g.projection.isEmpty = true ↔ g.Silent := by
  rw [projection, Projection.ofColumns, Registry.isEmpty_ofList, List.map_eq_nil_iff, shown,
    List.flatMap_eq_nil_iff]
  constructor
  · intro hnone i n hn
    exact List.map_eq_nil_iff.mp (hnone (n, i) (h.mem_placed.mpr hn))
  · intro hsilent p hp
    exact List.map_eq_nil_iff.mpr (hsilent p.2 p.1 (h.mem_placed.mp hp))

/-- An output name is shown if some node was asked for it. -/
theorem Inv.exists_mem_shown_iff {g : JoinGraph} (h : g.Inv) {output : String} :
    (∃ p ∈ g.shown, p.output = output) ↔
      ∃ i n, g.node? i = some n ∧ output ∈ n.projection.map (·.2) := by
  constructor
  · intro ⟨p, hp, hout⟩
    obtain ⟨⟨n, i⟩, hplaced, hshown⟩ := List.mem_flatMap.mp hp
    obtain ⟨shown, hmem, rfl⟩ := List.mem_map.mp hshown
    exact ⟨i, n, h.mem_placed.mp hplaced, List.mem_map.mpr ⟨shown, hmem, hout⟩⟩
  · intro ⟨i, n, hn, hout⟩
    obtain ⟨shown, hmem, rfl⟩ := List.mem_map.mp hout
    have hplaced : (n, i) ∈ g.placed := h.mem_placed.mpr hn
    exact ⟨_, List.mem_flatMap.mpr ⟨_, hplaced, List.mem_map_of_mem hmem⟩, rfl⟩

end JoinGraph

namespace Compiler

/-! ## Restrictions and conjuncts -/

/-- The predicate compares the columns of a restriction in the way the restriction says, each
under the alias of the node that its side is pinned to. -/
def States (c : Compiler) (g : JoinGraph) (r : Restriction) (t : PinnedRestriction) (e : Expr) :
    Prop :=
  ∃ near far, g.node? t.localSide.node = some near ∧ g.node? t.remoteSide.node = some far ∧
    r.comparison.Says (.column (some near.tableAlias) r.localSide.column)
      (.column (some far.tableAlias) r.remoteSide.column) c.notEquals e

/-- A restriction pinned to nodes of the graph has a predicate, the one that states it. -/
theorem predicate?_of_pinnedAs (c : Compiler) {g : JoinGraph} {last : Nat} {r : Restriction}
    {t : PinnedRestriction} (h : g.PinnedAs last r t) :
    ∃ e, c.predicate? g t = some e ∧ c.States g r t e := by
  obtain ⟨_, near, hnear, _⟩ := h.localOwned
  obtain ⟨_, far, hfar, _⟩ := h.remoteOwned
  refine ⟨_, ?_, near, far, hnear, hfar, Comparison.says_iff.mpr rfl⟩
  unfold predicate? columnExpr?
  rw [hnear, hfar, h.comparison, h.localColumn, h.remoteColumn]
  rfl

/-- None of the restrictions is lost on the way to the predicates, and none moves. -/
theorem states_filterMap_predicate? (c : Compiler) {g : JoinGraph} {last : Nat}
    {declared : List Restriction} {pinned : List PinnedRestriction}
    (hlength : declared.length = pinned.length)
    (hpinned : ∀ p ∈ declared.zip pinned, g.PinnedAs last p.1 p.2) :
    List.Forall₂ (fun p e => c.States g p.1 p.2 e) (declared.zip pinned)
      (pinned.filterMap (c.predicate? g)) := by
  induction declared generalizing pinned with
  | nil =>
    rw [List.length_eq_zero_iff.mp hlength.symm]
    exact .nil
  | cons r declared ih =>
    cases pinned with
    | nil => exact absurd hlength (by simp)
    | cons t pinned =>
      obtain ⟨e, he, hstates⟩ :=
        c.predicate?_of_pinnedAs (hpinned (r, t) (List.mem_cons_self ..))
      rw [List.zip_cons_cons, List.filterMap_cons_some he]
      refine .cons hstates (ih (Nat.succ.inj hlength) ?_)
      intro p hp
      exact hpinned p (List.mem_cons_of_mem _ hp)

/-- What a restriction states is no conjunction. -/
theorem States.isConjunction {c : Compiler} {g : JoinGraph} {r : Restriction}
    {t : PinnedRestriction} {e : Expr} (h : c.States g r t e) : e.isConjunction = false := by
  obtain ⟨_, _, _, _, hsays⟩ := h
  rw [Comparison.says_iff.mp hsays]
  exact isConjunction_predicate ..

/-- The only literal is the wildcard around the remote side of a LIKE. -/
theorem States.of_mem_literals {c : Compiler} {g : JoinGraph} {r : Restriction}
    {t : PinnedRestriction} {e : Expr} {s : String} (h : c.States g r t e)
    (hs : s ∈ e.literals) : s = "%" ∧ r.comparison = .like := by
  obtain ⟨_, _, _, _, hsays⟩ := h
  rw [Comparison.says_iff.mp hsays, literals_predicate] at hs
  split at hs
  next hlike =>
    refine ⟨?_, hlike⟩
    simpa using hs
  next => exact absurd hs (by simp)

/-! ## References and joins -/

/-- The table is the one of the node, under the alias of the node. -/
def RefersTo (t : TableRef) (n : Node) : Prop :=
  ObjectName.Spells n.entity.table t.name ∧ t.tableAlias = some n.tableAlias

/-- The compiler refers to a node by its table and its alias. -/
theorem refersTo_tableRef (n : Node) : RefersTo (tableRef n) n :=
  ⟨ObjectName.ofText_eq_iff.mp rfl, rfl⟩

/-- The join says what the reference does. -/
structure JoinsAs (c : Compiler) (g : JoinGraph) (l : Link) (j : Join) : Prop where
  kind : j.kind = l.childNode.kind
  table : RefersTo j.table l.childNode
  natural : l.childNode.kind = .natural → j.condition = none
  -- one conjunct for each declared restriction, in their order
  restricted : l.childNode.kind ≠ .natural → ∃ e, j.condition = some (.paren e) ∧
    e.conjuncts.length = l.reference.declared.length ∧
    List.Forall₂ (fun p conjunct => c.States g p.1 p.2 conjunct)
      (l.reference.declared.zip l.reference.pinned) e.conjuncts

theorem takesCondition_iff {k : JoinKind} : k.takesCondition = true ↔ k ≠ .natural := by
  simp [JoinKind.takesCondition]

/-- What the compiler makes of a reference joins its child as it should. -/
theorem joinsAs_joinOf (c : Compiler) {g : JoinGraph} (h : g.Inv) {e : Nat} {l : Link}
    (hl : g.link? e = some l) : c.JoinsAs g l (c.joinOf g l) where
  kind := rfl
  table := refersTo_tableRef l.childNode
  natural := by
    intro hnat
    show c.condition g l = none
    rw [condition, hnat]
    rfl
  restricted := by
    intro hnat
    have hat := h.linkAt hl
    have hall := c.states_filterMap_predicate? hat.length_eq hat.sound.pinned
    have hzip : (l.reference.declared.zip l.reference.pinned).length =
        l.reference.declared.length := by
      rw [List.length_zip, ← hat.length_eq, Nat.min_self]
    cases he : Expr.all? (l.reference.pinned.filterMap (c.predicate? g)) with
    | none =>
      rw [Expr.all?_eq_none_iff.mp he] at hall
      have hnil := hall.length_eq
      rw [hzip, List.length_nil, List.length_eq_zero_iff] at hnil
      exact absurd hnil (hat.declared_ne_nil hnat)
    | some conjunction =>
      have hno : ∀ p ∈ l.reference.pinned.filterMap (c.predicate? g),
          p.isConjunction = false := by
        intro p hp
        obtain ⟨_, _, hstates⟩ := exists_of_mem_right hall hp
        exact hstates.isConjunction
      refine ⟨conjunction, ?_, ?_, ?_⟩
      · show c.condition g l = _
        rw [condition, if_pos (takesCondition_iff.mpr hnat), he]
        rfl
      · rw [Expr.conjuncts_of_all? he hno, ← hall.length_eq, hzip]
      · rw [Expr.conjuncts_of_all? he hno]
        exact hall

/-- The only literals in a condition are wildcards, from restrictions by LIKE. -/
theorem JoinsAs.of_mem_literals {c : Compiler} {g : JoinGraph} {l : Link} {j : Join} {s : String}
    (h : c.JoinsAs g l j) (hs : s ∈ (j.condition.map Expr.literals).getD []) :
    s = "%" ∧ ∃ r ∈ l.reference.declared, r.comparison = .like := by
  by_cases hnat : l.childNode.kind = .natural
  · rw [h.natural hnat] at hs
    exact absurd hs (by simp)
  · obtain ⟨e, he, _, hall⟩ := h.restricted hnat
    rw [he] at hs
    have hs' : s ∈ e.literals := hs
    rw [Expr.literals_eq_flatMap_conjuncts] at hs'
    obtain ⟨conjunct, hconjunct, hmem⟩ := List.mem_flatMap.mp hs'
    obtain ⟨p, hp, hstates⟩ := exists_of_mem_right hall hconjunct
    obtain ⟨hwild, hlike⟩ := hstates.of_mem_literals hmem
    exact ⟨hwild, p.1, (List.of_mem_zip hp).1, hlike⟩

/-! ## The select list -/

/-- The item shows a column under the name of an output. Of the columns that nodes show there it is
the first: no node before its own shows one, and its node shows none before it. -/
def Shows (g : JoinGraph) (item : SelectItem) (output : String) : Prop :=
  ∃ i n earlier column later, g.node? i = some n ∧
    n.projection = earlier ++ (column, output) :: later ∧
    (∀ shown ∈ earlier, shown.2 ≠ output) ∧
    (∀ j m, j < i → g.node? j = some m → ∀ shown ∈ m.projection, shown.2 ≠ output) ∧
    item = ⟨.column (some n.tableAlias) column, some output⟩

/-- What is first on the walk over the nodes is first by position. -/
theorem shows_of_firstShown {g : JoinGraph} (h : g.Inv) {p : ProjectedColumn}
    (hp : g.FirstShown p) : Shows g (selectItem p) p.output := by
  obtain ⟨before, q, after, earlier, later, hplaced, hshown, _, halias, hbefore, hearlier⟩ := hp
  obtain ⟨hq, hprior⟩ := h.of_placed_eq_append hplaced
  refine ⟨q.2, q.1, earlier, p.column, later, hq, hshown, hearlier, ?_, ?_⟩
  · intro j m hj hm
    exact hbefore (m, j) (hprior j m hj hm)
  · rw [selectItem, halias]

/-- What the compiler selects is what a node shows first under the output name. -/
theorem shows_selectItem {g : JoinGraph} (h : g.Inv) {p : ProjectedColumn}
    (hp : p ∈ g.projection.values) : Shows g (selectItem p) p.output :=
  shows_of_firstShown h (JoinGraph.get?_projection_eq_some_iff.mp
    (Projection.get?_ofColumns_eq_some_iff.mpr ⟨hp, rfl⟩)).2

/-! ## Queries -/

/-- The query says what the graph does, all of it and nothing else. -/
structure Represents (c : Compiler) (g : JoinGraph) (q : Query) : Prop where
  filter : q.filter = none
  -- one item for each output that a node shows, in ascending order
  outputs : ∃ outputs : List String, outputs.Pairwise (· < ·) ∧
    (∀ output, output ∈ outputs ↔
      ∃ i n, g.node? i = some n ∧ output ∈ n.projection.map (·.2)) ∧
    List.Forall₂ (Shows g) q.select outputs
  source : ∃ t, q.source = some t ∧ RefersTo t g.rootNode
  -- one join for each reference, in declaration order
  joins : List.Forall₂ (fun e j => ∃ l, g.link? e = some l ∧ c.JoinsAs g l j) g.references q.joins
  literals : ∀ s ∈ q.literals, s = "%" ∧
    ∃ l ∈ g.links, ∃ r ∈ l.reference.declared, r.comparison = .like

/-- The select list has the shown columns in the order of their output names. -/
theorem forall₂_shows {g : JoinGraph} (h : g.Inv) :
    List.Forall₂ (Shows g) (g.projection.values.map selectItem) g.projection.names := by
  rw [JoinGraph.projection, Projection.names_ofColumns, List.forall₂_map_left_iff,
    List.forall₂_map_right_iff, List.forall₂_same]
  intro p hp
  exact shows_selectItem h hp

/-- The joins are those of the references, in declaration order. -/
theorem forall₂_joinsAs (c : Compiler) {g : JoinGraph} (h : g.Inv) :
    List.Forall₂ (fun e j => ∃ l, g.link? e = some l ∧ c.JoinsAs g l j) g.references
      (g.links.map (c.joinOf g)) := by
  rw [← h.map_edge_links, List.forall₂_map_left_iff, List.forall₂_map_right_iff,
    List.forall₂_same]
  intro l hl
  have hlink := h.mem_links.mp hl
  exact ⟨l, hlink, c.joinsAs_joinOf h hlink⟩

/-- The query that compilation puts together represents the graph. -/
theorem represents_queryOf (c : Compiler) {g : JoinGraph} (h : g.Inv) :
    c.Represents g (c.queryOf g g.projection) where
  filter := rfl
  outputs := by
    refine ⟨g.projection.names, List.pairwise_map.mpr (Registry.sorted_ofList _), ?_,
      forall₂_shows h⟩
    intro output
    rw [← h.exists_mem_shown_iff]
    exact Projection.mem_names_ofColumns
  source := ⟨_, rfl, refersTo_tableRef g.rootNode⟩
  joins := c.forall₂_joinsAs h
  literals := by
    intro s hs
    rcases List.mem_append.mp hs with hs | hs
    · rcases List.mem_append.mp hs with hs | hs
      · -- the select list has columns only
        obtain ⟨item, hitem, hmem⟩ := List.mem_flatMap.mp hs
        obtain ⟨p, _, rfl⟩ := List.mem_map.mp hitem
        exact absurd hmem (by simp [selectItem, Expr.literals, Expr.atoms])
      · obtain ⟨j, hj, hmem⟩ := List.mem_flatMap.mp hs
        obtain ⟨l, hl, rfl⟩ := List.mem_map.mp hj
        obtain ⟨hwild, hlike⟩ := (c.joinsAs_joinOf h (h.mem_links.mp hl)).of_mem_literals hmem
        exact ⟨hwild, l, hl, hlike⟩
    · exact absurd hs (by simp [queryOf])

/-! ## Compilation -/

/-- The reference is the first in declaration order of which the dialect lacks the join. -/
def FirstUnsupported (c : Compiler) (g : JoinGraph) (l : Link) : Prop :=
  ∃ before e after, g.references = before ++ e :: after ∧ g.link? e = some l ∧
    c.dialect.Lacks l.childNode.kind ∧
    ∀ d ∈ before, ∀ m, g.link? d = some m → ¬ c.dialect.Lacks m.childNode.kind

/-- The compiler refuses the kinds that its dialect lacks. -/
theorem not_supports_iff {c : Compiler} {k : JoinKind} :
    (!c.supports k) = true ↔ c.dialect.Lacks k := by
  rw [Bool.not_eq_true', supports_eq_false_iff, Dialect.lacks_iff]

/-- The join in the compiler's error is the first that the dialect lacks. -/
theorem firstUnsupported_iff (c : Compiler) {g : JoinGraph} (h : g.Inv) {l : Link} :
    c.unsupported? g.links = some l ↔ c.FirstUnsupported g l := by
  rw [unsupported?, List.find?_eq_some_iff_append, not_supports_iff]
  constructor
  · intro hfirst
    obtain ⟨hlacks, before, after, hlinks, hbefore⟩ := hfirst
    have hl : l ∈ g.links := by
      rw [hlinks]
      exact List.mem_append_right _ (List.mem_cons_self ..)
    refine ⟨before.map (·.edge), l.edge, after.map (·.edge), ?_, h.mem_links.mp hl, hlacks, ?_⟩
    · rw [← h.map_edge_links, hlinks, List.map_append, List.map_cons]
    · intro d hd m hm
      obtain ⟨other, hother, rfl⟩ := List.mem_map.mp hd
      have hmem : other ∈ g.links := by
        rw [hlinks]
        exact List.mem_append_left _ hother
      rw [h.mem_links.mp hmem, Option.some.injEq] at hm
      rw [← hm, ← not_supports_iff]
      simpa using hbefore other hother
  · intro hfirst
    obtain ⟨before, e, after, hreferences, hl, hlacks, hbefore⟩ := hfirst
    refine ⟨hlacks, before.filterMap g.link?, after.filterMap g.link?, ?_, ?_⟩
    · rw [JoinGraph.links, hreferences, List.filterMap_append, List.filterMap_cons_some hl]
    · intro m hm
      obtain ⟨d, hd, hdm⟩ := List.mem_filterMap.mp hm
      rw [Bool.not_eq_true', ← Bool.not_eq_true, not_supports_iff]
      exact hbefore d hd m hdm

/-- Compilation fails for a graph that shows nothing and for a join that the dialect lacks; for
every other graph there is a query, and it represents the graph. -/
theorem compile_complete {g : JoinGraph} (h : g.Reachable) (c : Compiler) :
    (∀ t, c.compile g = .error (.emptyProjection t) ↔
      g.Silent ∧ t = g.rootNode.entity.table) ∧
    (∀ d k t, c.compile g = .error (.unsupportedJoin d k t) ↔
      ¬ g.Silent ∧ ∃ l, c.FirstUnsupported g l ∧
        d = c.dialect ∧ k = l.childNode.kind ∧ t = l.childNode.entity.table) ∧
    (¬ g.Silent → (∀ e ∈ g.references, ∀ l, g.link? e = some l →
        ¬ c.dialect.Lacks l.childNode.kind) →
      ∃ q, c.compile g = .ok q ∧ c.Represents g q) := by
  have hi := h.inv
  have hsilent := hi.isEmpty_projection_iff
  refine ⟨?_, ?_, ?_⟩
  · intro t
    rw [compile, compileWith_eq_error_iff, hsilent]
    simp
  · intro d k t
    rw [compile, compileWith_eq_error_iff, ← Bool.not_eq_true, hsilent]
    simp only [firstUnsupported_iff c hi]
    simp
  · intro hshows hhas
    refine ⟨_, compileWith_eq_ok_iff.mpr ⟨?_, ?_, rfl⟩, c.represents_queryOf hi⟩
    · rw [← Bool.not_eq_true, hsilent]
      exact hshows
    · intro l hl
      have hedge : l.edge ∈ g.references := by
        rw [← hi.map_edge_links]
        exact List.mem_map_of_mem hl
      have hlink := hhas l.edge hedge l (hi.mem_links.mp hl)
      rwa [← not_supports_iff, Bool.not_eq_true', Bool.not_eq_false] at hlink

end Compiler

namespace Warehouse

/-- The graph of widgets, parts and labels compiles, and its query represents it. -/
theorem compile_graph :
    ∃ q, Compiler.compile {} graph = .ok q ∧ Compiler.Represents {} graph q := by
  refine (Compiler.compile_complete reachable_graph {}).2.2 ?_ ?_
  · intro hsilent
    have hshown : (graph.node? 0).map (·.projection) = some [("name", "widget")] := by
      decide +kernel
    obtain ⟨n, hn, hp⟩ := Option.map_eq_some_iff.mp hshown
    rw [hsilent 0 n hn] at hp
    exact absurd hp (by simp)
  · -- the generic dialect has joins of every kind
    exact fun _ _ _ _ hlacks => nomatch hlacks

end Warehouse

end Joinery
