import Joinery.Proofs.Alias.Renaming
import Joinery.Proofs.Graph.Atomicity
import Joinery.Proofs.Graph.Resolution

/-!
# Steps on a renamed graph

A restriction can speak of aliases, since a qualifier names a node by its alias before anything
else. One whose qualifiers are aliases neither before nor after the renaming is pinned to the same
nodes (`pin_renamed`); an error puts the new aliases where the old ones were.

So a step that speaks of no alias comes to the same on a renamed graph, whether it succeeds or
fails (`project_renamed`, `projectAll_renamed`, `join_renamed`). A join takes an alias for its node,
and it has to be the one that the other alias is renamed to.
-/

namespace Joinery

theorem modify_map {α β : Type} {f : α → β} {change : α → α} {change' : β → β}
    (h : ∀ a, f (change a) = change' (f a)) (l : List α) (i : Nat) :
    (l.map f).modify i change' = (l.modify i change).map f := by
  apply List.ext_getElem?
  intro j
  rw [List.getElem?_modify, List.getElem?_map, List.getElem?_map, List.getElem?_modify]
  cases l[j]? with
  | none => rfl
  | some a =>
    show some (if i = j then change' (f a) else f a) = some (f (if i = j then change a else a))
    split
    next => rw [h]
    next => rfl

/-! ## Pinning -/

/-- The qualifiers that a restriction is written with. -/
def Restriction.qualifiers (r : Restriction) : List String :=
  r.localSide.qualifier.toList ++ r.remoteSide.qualifier.toList

namespace JoinGraph

/-- The text is an alias neither in the graph nor once its aliases are renamed. -/
def NoAlias (f : String → String) (g : JoinGraph) (text : String) : Prop :=
  g.byAlias? text = none ∧ (g.renamed f).byAlias? text = none

variable (f : String → String)

/-- What was found in a graph, as it is found after renaming. -/
def renamedFind (found : Except DeclarationError PlacedNode) : Except DeclarationError PlacedNode :=
  (found.mapError (DeclarationError.renamed f)).map (PlacedNode.renamed f)

theorem placed_arena_renamed (g : JoinGraph) :
    (g.renamed f).arena.placed = g.arena.placed.map (PlacedNode.renamed f) :=
  List.zipIdx_map

/-- A property that no alias matters to picks the same nodes. -/
theorem those_renamed {g : JoinGraph} {property property' : PlacedNode → Bool}
    (h : ∀ p : PlacedNode, property' (p.renamed f) = property p) :
    (g.renamed f).those property' = (g.those property).map (PlacedNode.renamed f) := by
  rw [those, placed_arena_renamed, List.filter_map]
  congr 2
  funext p
  exact h p

/-- A message about ambiguity lists the new aliases. -/
theorem aliasesOf_renamed (nodes : List PlacedNode) :
    aliasesOf (nodes.map (PlacedNode.renamed f)) = (aliasesOf nodes).map f := by
  rw [aliasesOf, aliasesOf, List.map_map, List.map_map]
  rfl

theorem byRelation?_renamed (g : JoinGraph) (name : String) :
    (g.renamed f).byRelation? name = (g.byRelation? name).map (PlacedNode.renamed f) := by
  unfold byRelation?
  rw [@those_renamed f g (fun p => p.2 != g.root && p.1.relation == name) _ fun _ => rfl]
  cases g.those fun p => p.2 != g.root && p.1.relation == name with
  | nil => rfl
  | cons first others =>
    cases others with
    | nil => rfl
    | cons => rfl

/-- The only node of a list, or an error that names no alias, or one that names those of all. -/
theorem only_renamed {missing : DeclarationError} (hmissing : missing.renamed f = missing)
    (column : String) (nodes : List PlacedNode) :
    (match nodes.map (PlacedNode.renamed f) with
      | [only] => .ok only
      | [] => .error missing
      | several => .error (.ambiguousColumn column (aliasesOf several))) =
    renamedFind f (match nodes with
      | [only] => .ok only
      | [] => .error missing
      | several => .error (.ambiguousColumn column (aliasesOf several))) := by
  cases nodes with
  | nil => exact congrArg Except.error hmissing.symm
  | cons first others =>
    cases others with
    | nil => rfl
    | cons second others =>
      refine congrArg (Except.error <| DeclarationError.ambiguousColumn column ·) ?_
      exact aliasesOf_renamed f (first :: second :: others)

/-- A table's name leads to the same node, or to the same error about the new aliases. -/
theorem byTable_renamed (g : JoinGraph) (qualifier : String) (spec : ColumnSpec) :
    (g.renamed f).byTable qualifier spec = renamedFind f (g.byTable qualifier spec) := by
  unfold byTable
  rw [@those_renamed f g (·.1.entity.table == qualifier) _ fun _ => rfl]
  exact @only_renamed f (.unknownQualifier qualifier spec.text) rfl spec.text _

/-- A qualifier that is no alias, old or new, leads to the same node. -/
theorem named_renamed {g : JoinGraph} {qualifier : String} (h : g.NoAlias f qualifier)
    (spec : ColumnSpec) :
    (g.renamed f).named qualifier spec = renamedFind f (g.named qualifier spec) := by
  unfold named
  rw [h.1, h.2, Option.none_or, Option.none_or, byRelation?_renamed, byTable_renamed]
  cases g.byRelation? qualifier with
  | none => rfl
  | some p => rfl

/-- Whether a node has a column does not depend on its alias. -/
theorem locateOn_renamed (p : PlacedNode) (column : String) :
    locateOn (p.renamed f) column = renamedFind f (locateOn p column) := by
  unfold locateOn
  show (if p.1.entity.hasColumn column then _ else _) = _
  split
  next => rfl
  next => rfl

theorem locateBare_renamed (g : JoinGraph) (home : PlacedNode) (column : String) :
    (g.renamed f).locateBare (home.renamed f) column = renamedFind f (g.locateBare home column) := by
  unfold locateBare
  show (if home.1.entity.hasColumn column then _ else _) = _
  split
  next => rfl
  next =>
    rw [@those_renamed f g (fun p => p.2 != home.2 && p.1.entity.hasColumn column) _ fun _ => rfl]
    exact @only_renamed f (.unknownColumn home.1.entity.table column) rfl column _

/-- A column without an alias before it is found on the same node. -/
theorem locate_renamed {g : JoinGraph} {spec : ColumnSpec}
    (h : ∀ qualifier ∈ spec.qualifier, g.NoAlias f qualifier) (home : PlacedNode) :
    (g.renamed f).locate (home.renamed f) spec = renamedFind f (g.locate home spec) := by
  unfold locate
  cases hq : spec.qualifier with
  | none => exact locateBare_renamed f g home spec.column
  | some qualifier =>
    show (g.renamed f).named qualifier spec >>= _ =
      renamedFind f (g.named qualifier spec >>= fun p => locateOn p spec.column)
    rw [named_renamed f (h qualifier hq)]
    cases g.named qualifier spec with
    | error e => rfl
    | ok p => exact locateOn_renamed f p spec.column

theorem locateRemote_renamed {g : JoinGraph} {spec : ColumnSpec}
    (h : ∀ qualifier ∈ spec.qualifier, g.NoAlias f qualifier) (child parent near : PlacedNode) :
    (g.renamed f).locateRemote (child.renamed f) (parent.renamed f) (near.renamed f) spec =
      renamedFind f (g.locateRemote child parent near spec) := by
  unfold locateRemote
  show (if spec.qualifier.isNone && near.2 != child.2 then _ else _) = _
  split
  next => exact locateOn_renamed f child spec.column
  next => exact locate_renamed f h parent

theorem between_renamed (r : Restriction) (near far : PlacedNode) :
    between r (near.renamed f) (far.renamed f) =
      (between r near far).mapError (DeclarationError.renamed f) := by
  unfold between
  show (if r.infers && near.2 == far.2 then _ else _) = _
  split
  next => rfl
  next => rfl

/-- A restriction that speaks of no alias is pinned in the same way after renaming. -/
theorem pin_renamed {g : JoinGraph} {r : Restriction}
    (h : ∀ qualifier ∈ r.qualifiers, g.NoAlias f qualifier) (child parent : PlacedNode) :
    (g.renamed f).pin (child.renamed f) (parent.renamed f) r =
      (g.pin child parent r).mapError (DeclarationError.renamed f) := by
  have hlocal : ∀ qualifier ∈ r.localSide.qualifier, g.NoAlias f qualifier := fun qualifier hq =>
    h qualifier (List.mem_append_left _ (Option.mem_toList.mpr hq))
  have hremote : ∀ qualifier ∈ r.remoteSide.qualifier, g.NoAlias f qualifier := fun qualifier hq =>
    h qualifier (List.mem_append_right _ (Option.mem_toList.mpr hq))
  unfold pin
  rw [locate_renamed f hlocal]
  cases g.locate child r.localSide with
  | error e => rfl
  | ok near =>
    show (g.renamed f).locateRemote _ _ (near.renamed f) _ >>= _ = _
    rw [locateRemote_renamed f hremote]
    show _ = Except.mapError _ (g.locateRemote child parent near r.remoteSide >>= _)
    cases g.locateRemote child parent near r.remoteSide with
    | error e => rfl
    | ok far => exact between_renamed f r near far

/-! ## Steps on a graph -/

theorem size_renamed (g : JoinGraph) : (g.renamed f).size = g.size :=
  List.length_map _

/-- Showing columns and renaming can change places. -/
theorem showAt_renamed (g : JoinGraph) (i : Nat) (columns : List (String × String)) :
    (g.renamed f).showAt i columns = (g.showAt i columns).renamed f := by
  have hnodes : (g.arena.nodes.map (Node.renamed f)).modify i (·.showing columns) =
      (g.arena.nodes.modify i (·.showing columns)).map (Node.renamed f) :=
    @modify_map _ _ (Node.renamed f) (·.showing columns) _ (fun _ => rfl) _ _
  exact congrArg (fun nodes => { g.renamed f with arena := { g.arena with nodes } }) hnodes

/-- Adding a node and renaming can change places. -/
theorem pending_renamed (g : JoinGraph) (n : Node) :
    ((g.renamed f).pending (n.renamed f)).1 = (g.pending n).1.renamed f := by
  show JoinGraph.mk ⟨g.arena.nodes.map (Node.renamed f) ++ [n.renamed f], _⟩ _ _ _ _ =
    JoinGraph.mk ⟨(g.arena.nodes ++ [n]).map (Node.renamed f), _⟩ _ _ _ _
  rw [List.map_append]
  rfl

/-- Showing a column comes out alike, and leaves the renamed graph behind. -/
theorem project_renamed (g : JoinGraph) (i : Nat) (column output : String) :
    ((g.renamed f).project i column output).outcome =
        (g.project i column output).outcome.mapError (DeclarationError.renamed f) ∧
      ((g.renamed f).project i column output).graph =
        (g.project i column output).graph.renamed f := by
  unfold project
  rw [node?_renamed]
  cases g.node? i with
  | none => exact ⟨rfl, rfl⟩
  | some n =>
    show Attempt.outcome (if n.entity.hasColumn column then _ else _) = _ ∧
      Attempt.graph (if n.entity.hasColumn column then _ else _) = _
    simp only
    split
    next => exact ⟨rfl, g.showAt_renamed f i _⟩
    next => exact ⟨rfl, rfl⟩

theorem projectAll_renamed (g : JoinGraph) (i : Nat) :
    ((g.renamed f).projectAll i).outcome =
        (g.projectAll i).outcome.mapError (DeclarationError.renamed f) ∧
      ((g.renamed f).projectAll i).graph = (g.projectAll i).graph.renamed f := by
  unfold projectAll
  rw [node?_renamed]
  cases g.node? i with
  | none => exact ⟨rfl, rfl⟩
  | some n => exact ⟨rfl, g.showAt_renamed f i _⟩

/-- Nothing that is wrong with a declaration on its own is put in terms of aliases. -/
theorem renamed_of_fault? {g : JoinGraph} {spec : JoinSpec} {e : DeclarationError}
    (h : g.fault? spec = some e) : e.renamed f = e := by
  unfold fault? at h
  cases hdefect : spec.entity.defect? with
  | some defect =>
    rw [hdefect] at h
    rw [← Option.some.inj h]
    rfl
  | none =>
    rw [hdefect] at h
    simp only at h
    split at h
    next =>
      rw [← Option.some.inj h]
      rfl
    next =>
      split at h
      next =>
        rw [← Option.some.inj h]
        rfl
      next =>
        obtain ⟨_, _, rfl⟩ := Option.map_eq_some_iff.mp h
        rfl

/-- A join is let in alike, and refused with the same error. -/
theorem checkJoin_renamed (g : JoinGraph) (parent : Nat) (spec : JoinSpec) :
    (g.renamed f).checkJoin parent spec = renamedFind f (g.checkJoin parent spec) := by
  unfold checkJoin
  rw [node?_renamed]
  have hfault : (g.renamed f).fault? spec = g.fault? spec := rfl
  rw [hfault]
  cases g.node? parent with
  | none => rfl
  | some n =>
    cases he : g.fault? spec with
    | none => rfl
    | some e => exact congrArg Except.error (renamed_of_fault? f he).symm

theorem isOk_checkJoin_renamed (g : JoinGraph) (parent : Nat) (spec : JoinSpec) :
    ((g.renamed f).checkJoin parent spec).isOk = (g.checkJoin parent spec).isOk := by
  rw [checkJoin_renamed]
  cases g.checkJoin parent spec with
  | error e => rfl
  | ok p => rfl

/-- With the node to be joined in the arena, a text that is none of the aliases names no node. -/
theorem Inv.byAlias?_pending {g : JoinGraph} (h : g.Inv) {n : Node} {text : String}
    (hg : text ∉ g.tableAliases) (hn : text ≠ n.tableAlias) :
    (g.pending n).1.byAlias? text = none := by
  refine h.byAlias?_eq_none_iff.mpr fun p hp hname => ?_
  rw [node?_pending] at hp
  split at hp
  next =>
    rw [← Option.some.inj hp] at hname
    exact hn hname.symm
  next => exact hg (List.mem_map.mpr ⟨p, h.mem_placed.mpr hp, hname⟩)

/-- A join whose restrictions cannot all be pinned leaves the graph as it was. -/
theorem Inv.attach_of_error {g : JoinGraph} (h : g.Inv) {parent : PlacedNode} {spec : JoinSpec}
    {tableAlias : String} {e : DeclarationError}
    (hpins : spec.restrictions.mapM ((g.pending (spec.toNode tableAlias)).1.pin
      (spec.toNode tableAlias, g.size) parent) = .error e) :
    g.attach parent spec tableAlias = ⟨.error e, g⟩ := by
  rcases attach_cases g parent spec tableAlias with ⟨d, hfails, hattach⟩ | ⟨pinned, hok, _⟩
  · rw [hattach, withdraw_pending h]
    rw [hfails] at hpins
    rw [Except.error.inj hpins]
  · rw [mapM_eq_ok_iff.mpr hok] at hpins
    exact nomatch hpins

/-- If every restriction is pinned, the join grows the graph. -/
theorem attach_of_ok {g : JoinGraph} {parent : PlacedNode} {spec : JoinSpec} {tableAlias : String}
    {pinned : List PinnedRestriction}
    (hpins : spec.restrictions.mapM ((g.pending (spec.toNode tableAlias)).1.pin
      (spec.toNode tableAlias, g.size) parent) = .ok pinned) :
    g.attach parent spec tableAlias =
      ⟨.ok g.size, g.grown parent.2 (spec.toNode tableAlias) ⟨spec.restrictions, pinned⟩⟩ := by
  rcases attach_cases g parent spec tableAlias with ⟨d, hfails, _⟩ | ⟨others, hok, hattach⟩
  · rw [hfails] at hpins
    exact nomatch hpins
  · rw [mapM_eq_ok_iff.mpr hok] at hpins
    rw [hattach, Except.ok.inj hpins]
    rfl

theorem grown_renamed (g : JoinGraph) (parent : Nat) (n : Node) (r : Reference) :
    (g.renamed f).grown parent (n.renamed f) r = (g.grown parent n r).renamed f := by
  rw [grown, pending_renamed, size_renamed]
  rfl

/-- A join whose restrictions speak of no alias comes to the same after renaming. -/
theorem attach_renamed {g : JoinGraph} (h : g.Inv) (h' : (g.renamed f).Inv) {spec : JoinSpec}
    {tableAlias : String}
    (hnames : ∀ r ∈ spec.restrictions, ∀ qualifier ∈ r.qualifiers,
      qualifier ∉ tableAlias :: g.tableAliases ∧
      qualifier ∉ f tableAlias :: (g.renamed f).tableAliases) (parent : PlacedNode) :
    ((g.renamed f).attach (parent.renamed f) spec (f tableAlias)).outcome =
        (g.attach parent spec tableAlias).outcome.mapError (DeclarationError.renamed f) ∧
      ((g.renamed f).attach (parent.renamed f) spec (f tableAlias)).graph =
        (g.attach parent spec tableAlias).graph.renamed f := by
  have hpending := g.pending_renamed f (spec.toNode tableAlias)
  have hpins : spec.restrictions.mapM (((g.renamed f).pending (spec.toNode (f tableAlias))).1.pin
        (spec.toNode (f tableAlias), (g.renamed f).size) (parent.renamed f)) =
      (spec.restrictions.mapM ((g.pending (spec.toNode tableAlias)).1.pin
        (spec.toNode tableAlias, g.size) parent)).mapError (DeclarationError.renamed f) := by
    refine mapM_mapError fun r hr => ?_
    rw [size_renamed]
    show ((g.renamed f).pending ((spec.toNode tableAlias).renamed f)).1.pin
      (PlacedNode.renamed f (spec.toNode tableAlias, g.size)) (parent.renamed f) r = _
    rw [hpending]
    refine pin_renamed f (fun qualifier hq => ?_) _ _
    obtain ⟨hfree, hfree'⟩ := hnames r hr qualifier hq
    rw [List.mem_cons, not_or] at hfree hfree'
    refine ⟨h.byAlias?_pending hfree.2 hfree.1, ?_⟩
    rw [← hpending]
    exact h'.byAlias?_pending hfree'.2 hfree'.1
  cases houtcome : spec.restrictions.mapM ((g.pending (spec.toNode tableAlias)).1.pin
      (spec.toNode tableAlias, g.size) parent) with
  | error e =>
    rw [houtcome] at hpins
    rw [h.attach_of_error houtcome, h'.attach_of_error hpins]
    exact ⟨rfl, rfl⟩
  | ok pinned =>
    rw [houtcome] at hpins
    rw [attach_of_ok houtcome, attach_of_ok hpins]
    exact ⟨congrArg Except.ok (g.size_renamed f), g.grown_renamed f parent.2 (spec.toNode tableAlias) _⟩

/-- A start comes out alike, and its graph is renamed. -/
theorem start_renamed {entity : Entity} {aliases aliases' : AliasIssuer}
    (hask : entity.defect? = none →
      f (aliases.next entity.table .root).1 = (aliases'.next entity.table .root).1) :
    (start aliases' entity).1 =
      ((start aliases entity).1.mapError (DeclarationError.renamed f)).map (JoinGraph.renamed f) := by
  unfold start Entity.check
  cases hdefect : entity.defect? with
  | some defect => rfl
  | none =>
    show Except.ok (ofRoot (rootOf entity (aliases'.next entity.table .root).1)) = _
    rw [← hask hdefect]
    rfl

/-- A join that no alias matters to comes out alike, and leaves the renamed graph behind. -/
theorem join_renamed {g : JoinGraph} (h : g.Inv) (h' : (g.renamed f).Inv)
    {aliases aliases' : AliasIssuer} {parent : Nat} {spec : JoinSpec}
    (hask : (g.checkJoin parent spec).isOk = true →
      f (aliases.next spec.entity.table .joined).1 = (aliases'.next spec.entity.table .joined).1 ∧
      ∀ r ∈ spec.restrictions, ∀ qualifier ∈ r.qualifiers,
        qualifier ∉ (aliases.next spec.entity.table .joined).1 :: g.tableAliases ∧
        qualifier ∉ (aliases'.next spec.entity.table .joined).1 :: (g.renamed f).tableAliases) :
    ((g.renamed f).join aliases' parent spec).1.outcome =
        (g.join aliases parent spec).1.outcome.mapError (DeclarationError.renamed f) ∧
      ((g.renamed f).join aliases' parent spec).1.graph =
        (g.join aliases parent spec).1.graph.renamed f := by
  have hcheck := g.checkJoin_renamed f parent spec
  unfold join
  rw [hcheck]
  cases hparent : g.checkJoin parent spec with
  | error e => exact ⟨rfl, rfl⟩
  | ok p =>
    obtain ⟨halias, hnames⟩ := hask (by rw [hparent]; rfl)
    show ((g.renamed f).attach (p.renamed f) spec
        (aliases'.next spec.entity.table .joined).1).outcome = _ ∧
      ((g.renamed f).attach (p.renamed f) spec
        (aliases'.next spec.entity.table .joined).1).graph = _
    rw [← halias] at hnames ⊢
    exact attach_renamed f h h' hnames p

end JoinGraph

end Joinery
