import Joinery.Proofs.Graph.Coherence
import Joinery.Projection

/-!
# First claims on output names

A projection is filled column by column, and an output name stays with the column that comes first.
`Projection.insertAll` is a run of insertions. What one insertion does after those before it
(`insertAll_append`) gives what it answers, and what the run leaves is the projection of its columns
(`insertAll_empty`); `keepsFirst_insertAll` puts the two together for every sequence of columns.

The projection of a graph is such a run over the nodes, root first and then in declaration order.
That is not the order in which columns were asked for: what the root is made to show after a join
still comes before what the joined node shows. `AskedFor` keeps the requests beside the graph, and
`AskedFor.projectionAt_eq` says that each node shows its own ones in their order.

This is about `Projection.insert` and `JoinGraph.projection`.
-/

namespace Joinery

namespace Projection

/-- Adds columns one after the other, and says of each whether it was added. -/
def insertAll (p : Projection) : List ProjectedColumn → List Bool × Projection
  | [] => ([], p)
  | c :: rest =>
    let (added, next) := p.insert c
    let (others, last) := insertAll next rest
    (added :: others, last)

/-- The ways to read a projection agree with each other. -/
structure Consistent (p : Projection) : Prop where
  ascending : p.names.Pairwise (· < ·)
  outputs : p.names = p.values.map (·.output)
  own : ∀ output c, (output, c) ∈ p.entries → c.output = output
  get : ∀ output c, p.get? output = some c ↔ c ∈ p.values ∧ c.output = output
  held : ∀ output, output ∈ p.names ↔ (p.get? output).isSome = true
  size : p.size = p.names.length ∧ p.size = p.values.length ∧ (p.isEmpty = true ↔ p.size = 0)

/-- What comes of adding columns to an empty projection: an answer to each, and the projection. -/
structure KeepsFirst (columns : List ProjectedColumn) (answers : List Bool) (p : Projection) :
    Prop where
  length : answers.length = columns.length
  -- a column is added if none before it has its output name
  answers : ∀ earlier c later, columns = earlier ++ c :: later →
    (answers[earlier.length]? = some true ↔ ∀ d ∈ earlier, d.output ≠ c.output)
  -- the column under an output name is the first that came under it
  stored : ∀ output c, p.get? output = some c ↔
    c.output = output ∧ Registry.IsFirst (·.output) columns c
  consistent : p.Consistent

/-- However columns are added, look-up and enumeration agree. -/
theorem consistent_ofColumns (columns : List ProjectedColumn) : (ofColumns columns).Consistent where
  ascending := by
    rw [Registry.names, List.pairwise_map]
    exact Registry.sorted_ofList _
  outputs := names_ofColumns columns
  own := by
    intro output c hentry
    have hout := List.find?_some (mem_entries_ofColumns.mp hentry)
    exact beq_iff_eq.mp hout
  get := fun _ _ => get?_ofColumns_eq_some_iff
  held := fun _ => Registry.mem_names_iff
  size := by
    rw [Registry.names, Registry.values, List.length_map, List.length_map]
    refine ⟨rfl, rfl, ?_⟩
    rw [Registry.isEmpty, Registry.size, List.isEmpty_iff, List.length_eq_zero_iff]

/-- A run of insertions goes on where the one before it stopped. -/
theorem insertAll_append (p : Projection) (first second : List ProjectedColumn) :
    p.insertAll (first ++ second) =
      ((p.insertAll first).1 ++ (insertAll (p.insertAll first).2 second).1,
        (insertAll (p.insertAll first).2 second).2) := by
  induction first generalizing p with
  | nil => rfl
  | cons c rest ih => simp only [List.cons_append, insertAll, ih]

theorem length_insertAll (p : Projection) (columns : List ProjectedColumn) :
    (p.insertAll columns).1.length = columns.length := by
  induction columns generalizing p with
  | nil => rfl
  | cons c rest ih => simp only [insertAll, List.length_cons, ih]

/-- What a run of insertions leaves is the projection of its columns. -/
theorem insertAll_empty (columns : List ProjectedColumn) :
    (insertAll .empty columns).2 = ofColumns columns := by
  have hfold : ∀ p : Projection,
      (p.insertAll columns).2 = columns.foldl (fun r c => r.claim c.output c) p := by
    induction columns with
    | nil => exact fun _ => rfl
    | cons c rest ih => exact fun p => ih _
  rw [hfold, ofColumns, Registry.ofList, List.foldl_map]

/-- An output name is free exactly if no column before has it. -/
theorem holds_ofColumns_eq_false_iff {columns : List ProjectedColumn} {output : String} :
    (ofColumns columns).holds output = false ↔ ∀ d ∈ columns, d.output ≠ output := by
  rw [Registry.holds, Option.isSome_eq_false_iff, Option.isNone_iff_eq_none, get?_ofColumns,
    List.find?_eq_none]
  simp only [beq_iff_eq, ne_eq]

/-- Insertions keep the first column under each output name. -/
theorem keepsFirst_insertAll (columns : List ProjectedColumn) :
    KeepsFirst columns (insertAll .empty columns).1 (insertAll .empty columns).2 where
  length := length_insertAll _ _
  answers := by
    rintro earlier c later rfl
    -- the answer to a column is the one it gets after those before it
    have hanswer : (insertAll .empty (earlier ++ c :: later)).1[earlier.length]? =
        some (!(ofColumns earlier).holds c.output) := by
      have hlen := length_insertAll .empty earlier
      rw [insertAll_append, List.getElem?_append_right (Nat.le_of_eq hlen), hlen, Nat.sub_self,
        insertAll_empty]
      rfl
    rw [hanswer, Option.some.injEq, Bool.not_eq_true', holds_ofColumns_eq_false_iff]
  stored := by
    intro output c
    rw [insertAll_empty, get?_ofColumns, Registry.find?_eq_some_iff_isFirst]
  consistent := by
    rw [insertAll_empty]
    exact consistent_ofColumns columns

end Projection

namespace JoinGraph

/-! ## The walk over the nodes -/

/-- The column is the first to be shown under its output name: by the first node that shows one
there, and it is the first that this node shows there. -/
def FirstShown (g : JoinGraph) (c : ProjectedColumn) : Prop :=
  ∃ before p after earlier later,
    g.placed = before ++ p :: after ∧ p.1.projection = earlier ++ (c.column, c.output) :: later ∧
    c.node = p.2 ∧ c.tableAlias = p.1.tableAlias ∧
    (∀ q ∈ before, ∀ shown ∈ q.1.projection, shown.2 ≠ c.output) ∧
    ∀ shown ∈ earlier, shown.2 ≠ c.output

/-- What the projection of a graph holds. -/
structure AccumulatesFirst (g : JoinGraph) : Prop where
  -- the walk goes over all nodes, in the order of their positions
  walk : g.placed.map (·.2) = List.range g.size ∧ ∀ p ∈ g.placed, g.node? p.2 = some p.1
  inserted : g.projection = (Projection.insertAll .empty g.shown).2
  outputs : ∀ output, output ∈ g.projection.names ↔
    ∃ p ∈ g.placed, ∃ shown ∈ p.1.projection, shown.2 = output
  sources : ∀ output c, g.projection.get? output = some c ↔ c.output = output ∧ g.FirstShown c
  consistent : g.projection.Consistent

/-- A node has nothing to show under a name that it was not asked for. -/
theorem find?_shownBy_eq_none_iff {p : PlacedNode} {output : String} :
    (shownBy p).find? (·.output == output) = none ↔
      ∀ shown ∈ p.1.projection, shown.2 ≠ output := by
  rw [shownBy, List.find?_map, Option.map_eq_none_iff, List.find?_eq_none]
  simp only [Function.comp_apply, beq_iff_eq, ne_eq]

/-- What a node shows under a name is the first that it was asked to show there. -/
theorem find?_shownBy_eq_some_iff {p : PlacedNode} {output : String} {c : ProjectedColumn} :
    (shownBy p).find? (·.output == output) = some c ↔
      c.output = output ∧ c.node = p.2 ∧ c.tableAlias = p.1.tableAlias ∧
        ∃ earlier later, p.1.projection = earlier ++ (c.column, c.output) :: later ∧
          ∀ shown ∈ earlier, shown.2 ≠ c.output := by
  rw [shownBy, List.find?_map, Option.map_eq_some_iff]
  constructor
  · rintro ⟨⟨column, name⟩, hfind, rfl⟩
    obtain ⟨rfl, earlier, later, heq, hearlier⟩ := Registry.find?_eq_some_iff_isFirst.mp hfind
    exact ⟨rfl, rfl, rfl, earlier, later, heq, hearlier⟩
  · rintro ⟨rfl, hnode, halias, earlier, later, heq, hearlier⟩
    refine ⟨(c.column, c.output), ?_, ?_⟩
    · exact Registry.find?_eq_some_iff_isFirst.mpr ⟨rfl, earlier, later, heq, hearlier⟩
    · rw [← hnode, ← halias]

/-- The projection has under a name what is shown first under it. -/
theorem get?_projection_eq_some_iff {g : JoinGraph} {output : String} {c : ProjectedColumn} :
    g.projection.get? output = some c ↔ c.output = output ∧ g.FirstShown c := by
  rw [projection, Projection.get?_ofColumns, shown, List.find?_flatMap,
    List.findSome?_eq_some_iff]
  constructor
  · rintro ⟨before, p, after, heq, hfind, hbefore⟩
    obtain ⟨rfl, hnode, halias, earlier, later, hshown, hearlier⟩ :=
      find?_shownBy_eq_some_iff.mp hfind
    exact ⟨rfl, before, p, after, earlier, later, heq, hshown, hnode, halias,
      fun q hq => find?_shownBy_eq_none_iff.mp (hbefore q hq), hearlier⟩
  · rintro ⟨rfl, before, p, after, earlier, later, heq, hshown, hnode, halias, hbefore, hearlier⟩
    exact ⟨before, p, after, heq,
      find?_shownBy_eq_some_iff.mpr ⟨rfl, hnode, halias, earlier, later, hshown, hearlier⟩,
      fun q hq => find?_shownBy_eq_none_iff.mpr (hbefore q hq)⟩

/-- The output names are those that some node was asked for. -/
theorem mem_names_projection_iff {g : JoinGraph} {output : String} :
    output ∈ g.projection.names ↔ ∃ p ∈ g.placed, ∃ shown ∈ p.1.projection, shown.2 = output := by
  rw [projection, Projection.mem_names_ofColumns]
  constructor
  · rintro ⟨c, hc, rfl⟩
    obtain ⟨p, hp, hc⟩ := List.mem_flatMap.mp hc
    obtain ⟨shown, hshown, rfl⟩ := List.mem_map.mp hc
    exact ⟨p, hp, shown, hshown, rfl⟩
  · rintro ⟨p, hp, shown, hshown, rfl⟩
    exact ⟨_, List.mem_flatMap.mpr ⟨p, hp, List.mem_map.mpr ⟨shown, hshown, rfl⟩⟩, rfl⟩

/-- A graph that satisfies the invariant accumulates first claims in the order of its nodes. -/
theorem Inv.accumulatesFirst {g : JoinGraph} (h : g.Inv) : g.AccumulatesFirst where
  walk := ⟨h.map_snd_placed, fun _ hp => h.mem_placed.mp hp⟩
  inserted := (Projection.insertAll_empty g.shown).symm
  outputs := fun _ => mem_names_projection_iff
  sources := fun _ _ => get?_projection_eq_some_iff
  consistent := Projection.consistent_ofColumns g.shown

/-! ## What nodes were asked to show -/

/-- A graph that steps lead to, with what its nodes were asked to show: positions of nodes, each
with a column and its output name, in the order of the steps. Steps that fail ask for nothing. -/
inductive AskedFor : JoinGraph → List (Nat × String × String) → Prop
  | start {aliases : AliasIssuer} {entity : Entity} {g : JoinGraph} :
      (start aliases entity).1 = .ok g → AskedFor g []
  | project {g : JoinGraph} {asked : List (Nat × String × String)} {i : Nat}
      {column output : String} : AskedFor g asked → (g.project i column output).outcome = .ok () →
      AskedFor (g.project i column output).graph (asked ++ [(i, column, output)])
  | projectAll {g : JoinGraph} {asked : List (Nat × String × String)} {i : Nat} {n : Node} :
      AskedFor g asked → g.node? i = some n →
      AskedFor (g.projectAll i).graph (asked ++ (Node.everyColumn n.entity).map (i, ·))
  | join {g : JoinGraph} {asked : List (Nat × String × String)} {aliases : AliasIssuer}
      {parent i : Nat} {spec : JoinSpec} : AskedFor g asked →
      (g.join aliases parent spec).1.outcome = .ok i →
      AskedFor (g.join aliases parent spec).1.graph (asked ++ spec.projection.map (i, ·))

/-- What one node was asked to show. -/
def askedOf (asked : List (Nat × String × String)) (i : Nat) : List (String × String) :=
  (asked.filter (·.1 == i)).map (·.2)

/-- A graph with a history of requests can be reached. -/
theorem AskedFor.reachable {g : JoinGraph} {asked : List (Nat × String × String)}
    (h : g.AskedFor asked) : g.Reachable := by
  induction h with
  | start hok => exact .start hok
  | project _ _ ih => exact ih.project _ _ _
  | projectAll _ _ ih => exact ih.projectAll _
  | join _ _ ih => exact ih.join _ _ _

/-- Every graph that can be reached has a history of requests. -/
theorem Reachable.exists_askedFor {g : JoinGraph} (h : g.Reachable) :
    ∃ asked, g.AskedFor asked := by
  induction h with
  | start hok => exact ⟨[], .start hok⟩
  | @project g i column output _ ih =>
    obtain ⟨asked, hasked⟩ := ih
    cases hout : (g.project i column output).outcome with
    | error e =>
      rw [g.graph_of_project_eq_error hout]
      exact ⟨asked, hasked⟩
    | ok => exact ⟨_, hasked.project hout⟩
  | @projectAll g i _ ih =>
    obtain ⟨asked, hasked⟩ := ih
    cases hn : g.node? i with
    | none =>
      have hout : (g.projectAll i).outcome = .error .unknownParent := by
        rw [JoinGraph.projectAll, hn]
      rw [g.graph_of_projectAll_eq_error hout]
      exact ⟨asked, hasked⟩
    | some n => exact ⟨_, hasked.projectAll hn⟩
  | @join g aliases parent spec hg ih =>
    obtain ⟨asked, hasked⟩ := ih
    rcases join_of_inv hg.inv aliases parent spec with ⟨e, hjoin⟩ | ⟨_, _, _, _, _, _, hjoin⟩
    · rw [hjoin]
      exact ⟨asked, hasked⟩
    · exact ⟨_, hasked.join (by rw [hjoin])⟩

/-- What a node shows; a node that is not there shows nothing. -/
def projectionAt (g : JoinGraph) (i : Nat) : List (String × String) :=
  ((g.node? i).map (·.projection)).getD []

/-- The columns at the position of a node are those it shows. -/
theorem projectionAt_eq {g : JoinGraph} {i : Nat} {n : Node} (h : g.node? i = some n) :
    g.projectionAt i = n.projection := by
  rw [projectionAt, h]
  rfl

/-- A node that is there shows what it showed and what it is made to show. -/
theorem projectionAt_showAt {g : JoinGraph} {i : Nat} {n : Node} (h : g.node? i = some n)
    (columns : List (String × String)) (j : Nat) :
    (g.showAt i columns).projectionAt j =
      if j = i then g.projectionAt j ++ columns else g.projectionAt j := by
  rw [projectionAt, node?_showAt]
  by_cases heq : j = i
  · rw [if_pos heq, heq, projectionAt_eq h, h, Option.map_some, if_pos rfl]
    rfl
  · rw [if_neg heq, projectionAt, Option.map_map]
    congr 2
    funext n
    rw [Function.comp_apply, if_neg (Ne.symm heq)]

theorem projectionAt_grown (g : JoinGraph) (parent : Nat) (n : Node) (r : Reference) (j : Nat) :
    (g.grown parent n r).projectionAt j =
      if j = g.size then g.projectionAt j ++ n.projection else g.projectionAt j := by
  rw [projectionAt, node?_grown]
  split
  next heq =>
    have hnone : g.node? g.size = none := by
      rw [← Option.not_isSome_iff_eq_none, node?_isSome_iff]
      exact Nat.lt_irrefl _
    rw [heq, projectionAt, hnone]
    rfl
  next => rfl

/-- Requests for one node matter to it alone. -/
theorem askedOf_append (asked : List (Nat × String × String)) (i : Nat)
    (columns : List (String × String)) (j : Nat) :
    askedOf (asked ++ columns.map (i, ·)) j =
      if j = i then askedOf asked j ++ columns else askedOf asked j := by
  rw [askedOf, List.filter_append, List.map_append]
  split
  next heq =>
    have hall : (columns.map (i, ·)).filter (·.1 == j) = columns.map (i, ·) :=
      List.filter_eq_self.mpr fun a ha => by
        obtain ⟨_, _, rfl⟩ := List.mem_map.mp ha
        exact beq_iff_eq.mpr heq.symm
    rw [hall, List.map_map]
    exact congrArg (askedOf asked j ++ ·) (List.map_id columns)
  next hne =>
    have hnone : (columns.map (i, ·)).filter (·.1 == j) = [] :=
      List.filter_eq_nil_iff.mpr fun a ha => by
        obtain ⟨_, _, rfl⟩ := List.mem_map.mp ha
        exact fun hj => hne (beq_iff_eq.mp hj).symm
    rw [hnone]
    exact List.append_nil _

/-- Each node shows what it was asked to show, in that order, whatever was asked of other nodes in
between. -/
theorem AskedFor.projectionAt_eq {g : JoinGraph} {asked : List (Nat × String × String)}
    (h : g.AskedFor asked) (j : Nat) : g.projectionAt j = askedOf asked j := by
  induction h with
  | @start aliases entity g hok =>
    rcases start_cases aliases entity with ⟨defect, _, hstart⟩ | ⟨_, hstart⟩
    · rw [hstart] at hok
      exact nomatch hok
    · rw [hstart] at hok
      rw [← Except.ok.inj hok]
      -- the root is alone and shows nothing yet
      rcases j with _ | j
      · rfl
      · rfl
  | @project g asked i column output _ hok ih =>
    rcases g.project_cases i column output with ⟨e, hfails⟩ | ⟨n, hn, _, hshows⟩
    · rw [hfails] at hok
      exact nomatch hok
    · rw [hshows, projectionAt_showAt hn, ih]
      exact (askedOf_append asked i [(column, output)] j).symm
  | @projectAll g asked i n _ hn ih =>
    rw [JoinGraph.projectAll, hn, projectionAt_showAt hn, ih, askedOf_append]
  | @join g asked aliases parent i spec hasked hok ih =>
    rcases join_of_inv hasked.reachable.inv aliases parent spec with
      ⟨e, hjoin⟩ | ⟨p, n, pinned, _, rfl, _, hjoin⟩
    · rw [hjoin] at hok
      exact nomatch hok
    · rw [hjoin] at hok ⊢
      have hi : g.size = i := Except.ok.inj hok
      rw [projectionAt_grown, ih, hi, askedOf_append]
      rfl

/-- The projection of every graph has one column under each output name that a node shows, the first
on the walk over the nodes; and on that walk each node shows what it was asked to show, in that
order. So it is with every run of insertions: the first column under a name is added and stays. -/
theorem accumulatesFirst_of_reachable {g : JoinGraph} (h : g.Reachable) :
    g.AccumulatesFirst ∧ (∃ asked, g.AskedFor asked) ∧
      (∀ asked, g.AskedFor asked → ∀ p ∈ g.placed, p.1.projection = askedOf asked p.2) ∧
      ∀ columns, Projection.KeepsFirst columns (Projection.insertAll .empty columns).1
        (Projection.insertAll .empty columns).2 := by
  refine ⟨h.inv.accumulatesFirst, h.exists_askedFor, ?_, Projection.keepsFirst_insertAll⟩
  intro asked hasked p hp
  rw [← hasked.projectionAt_eq, projectionAt_eq (h.inv.mem_placed.mp hp)]

end JoinGraph

namespace Warehouse

/-- Widgets with their parts. The widgets are made to show their names last, as the detail that the
parts show. -/
def late : JoinGraph :=
  let first := AliasIssuer.standard.next "widgets" .root
  let root := JoinGraph.ofRoot (JoinGraph.rootOf widgets first.1)
  let joined := (root.join first.2 0 {
    entity := parts, kind := .left, projection := [("detail", "detail"), ("id", "part")]
    restrictions := [⟨.equals, .ofText "id", .ofText "part_id"⟩] }).1.graph
  (joined.project 0 "name" "detail").graph

/-- The requests made of a graph before and after a join. -/
theorem askedFor_late :
    late.AskedFor [(1, "detail", "detail"), (1, "id", "part"), (0, "name", "detail")] :=
  .project (.join (@JoinGraph.AskedFor.start .standard widgets _ rfl) (by decide +kernel))
    (by decide +kernel)

/-- The request that was made last gets the name, since the walk begins at the root. -/
theorem accumulatesFirst_late :
    late.Reachable ∧ late.AccumulatesFirst ∧
      (∀ p ∈ late.placed, p.1.projection = JoinGraph.askedOf
        [(1, "detail", "detail"), (1, "id", "part"), (0, "name", "detail")] p.2) ∧
      late.projection.values =
        [⟨0, "t1_widgets", "name", "detail"⟩, ⟨1, "j2_parts", "id", "part"⟩] := by
  obtain ⟨hfirst, _, hasked, _⟩ :=
    JoinGraph.accumulatesFirst_of_reachable askedFor_late.reachable
  exact ⟨askedFor_late.reachable, hfirst, hasked _ askedFor_late, by decide +kernel⟩

end Warehouse

end Joinery
