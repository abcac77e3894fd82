import Joinery.Proofs.Graph.Coherence

/-!
# How the sides of a restriction resolve

The rule by which a column finds its node is stated here by itself, as relations between a column
and what comes of it, with a case for every way in which it ends. A rule looks at the nodes of the
graph, the one about to be joined among them, and at nothing else: not at the indices, which do not
know that node yet, and not at the order of the searches.

`Inv.pin_eq_iff` says that pinning follows the rule, whatever it ends with. It is put together from
one such lemma for each search. Two of them need that the graph is one that steps lead to: the alias
index holds all nodes but the one about to be joined (`Inv.byAlias?_eq_some_iff`), and no two joined
nodes have one relation name (`Inv.eq_of_related`), so that searching for the only node with a
relation name never fails for finding several (`Inv.byRelation?_eq_none_iff`).

The searches are `JoinGraph.named`, `locateOn`, `locateBare` and `locate`, and pinning is
`JoinGraph.pin`.
-/

namespace Joinery

namespace JoinGraph

/-! ## The rule -/

/-- The nodes with a property are these, in the order of the nodes. -/
def Lists (g : JoinGraph) (has : PlacedNode → Prop) (found : List PlacedNode) : Prop :=
  found.Pairwise (·.2 < ·.2) ∧ ∀ p, p ∈ found ↔ g.node? p.2 = some p.1 ∧ has p

/-- What comes of asking for the only node with a property. -/
inductive Chooses (g : JoinGraph) (has : PlacedNode → Prop) (missing : DeclarationError)
    (column : String) : Except DeclarationError PlacedNode → Prop
  | only {p : PlacedNode} : g.Lists has [p] → Chooses g has missing column (.ok p)
  | none : g.Lists has [] → Chooses g has missing column (.error missing)
  | several {found : List PlacedNode} : g.Lists has found → 2 ≤ found.length →
      Chooses g has missing column (.error (.ambiguousColumn column (found.map (·.1.tableAlias))))

/-- The node with an alias. Of several the last counts, but the node about to be joined only if no
other has the alias. -/
structure Aliased (g : JoinGraph) (child : Nat) (name : String) (p : PlacedNode) : Prop where
  node : g.node? p.2 = some p.1
  named : p.1.tableAlias = name
  last : ∀ q : PlacedNode, g.node? q.2 = some q.1 → q.1.tableAlias = name → q.2 ≠ child →
    p.2 ≠ child ∧ q.2 ≤ p.2

def Unaliased (g : JoinGraph) (name : String) : Prop :=
  ∀ p : PlacedNode, g.node? p.2 = some p.1 → p.1.tableAlias ≠ name

/-- A joined node with a relation name. The root is none. -/
def Related (g : JoinGraph) (name : String) (p : PlacedNode) : Prop :=
  p.2 ≠ g.root ∧ p.1.relation = name

/-- What a qualifier names, in a column that is written as the text. -/
inductive Names (g : JoinGraph) (child : Nat) (qualifier text : String) :
    Except DeclarationError PlacedNode → Prop
  | byAlias {p : PlacedNode} : g.Aliased child qualifier p → Names g child qualifier text (.ok p)
  | byRelation {p : PlacedNode} : g.Unaliased qualifier → g.Lists (g.Related qualifier) [p] →
      Names g child qualifier text (.ok p)
  | byTable {outcome : Except DeclarationError PlacedNode} :
      g.Unaliased qualifier → g.Lists (g.Related qualifier) [] →
      g.Chooses (·.1.entity.table = qualifier) (.unknownQualifier qualifier text) text outcome →
      Names g child qualifier text outcome

/-- What a side comes to, which without qualifier has the given home. -/
inductive Resolves (g : JoinGraph) (child : Nat) (home : PlacedNode) (spec : ColumnSpec) :
    Except DeclarationError PlacedNode → Prop
  | unnamed {qualifier : String} {e : DeclarationError} : spec.qualifier = some qualifier →
      g.Names child qualifier spec.text (.error e) → Resolves g child home spec (.error e)
  | named {qualifier : String} {p : PlacedNode} : spec.qualifier = some qualifier →
      g.Names child qualifier spec.text (.ok p) → p.1.entity.hasColumn spec.column = true →
      Resolves g child home spec (.ok p)
  | lacking {qualifier : String} {p : PlacedNode} : spec.qualifier = some qualifier →
      g.Names child qualifier spec.text (.ok p) → p.1.entity.hasColumn spec.column = false →
      Resolves g child home spec (.error (.unknownColumn p.1.entity.table spec.column))
  | athome : spec.qualifier = none → home.1.entity.hasColumn spec.column = true →
      Resolves g child home spec (.ok home)
  | abroad {outcome : Except DeclarationError PlacedNode} : spec.qualifier = none →
      home.1.entity.hasColumn spec.column = false →
      g.Chooses (fun p => p.2 ≠ home.2 ∧ p.1.entity.hasColumn spec.column = true)
        (.unknownColumn home.1.entity.table spec.column) spec.column outcome →
      Resolves g child home spec outcome

/-- What the remote side comes to, given the node of the local one: it is at home at the parent, but
without qualifier it must be on the joined node as soon as the local side is not. -/
inductive ResolvesRemote (g : JoinGraph) (child parent near : PlacedNode) (spec : ColumnSpec) :
    Except DeclarationError PlacedNode → Prop
  | onChild : spec.qualifier = none → near.2 ≠ child.2 →
      child.1.entity.hasColumn spec.column = true →
      ResolvesRemote g child parent near spec (.ok child)
  | offChild : spec.qualifier = none → near.2 ≠ child.2 →
      child.1.entity.hasColumn spec.column = false →
      ResolvesRemote g child parent near spec
        (.error (.unknownColumn child.1.entity.table spec.column))
  | usual {outcome : Except DeclarationError PlacedNode} :
      (spec.qualifier = none → near.2 = child.2) → g.Resolves child.2 parent spec outcome →
      ResolvesRemote g child parent near spec outcome

/-- Both sides resolve, to these nodes. -/
def BothResolve (g : JoinGraph) (child parent : PlacedNode) (r : Restriction)
    (near far : PlacedNode) : Prop :=
  g.Resolves child.2 child r.localSide (.ok near) ∧
    g.ResolvesRemote child parent near r.remoteSide (.ok far)

/-- A side has no qualifier, and yet both are on one node. -/
def MeetUnasked (r : Restriction) (near far : PlacedNode) : Prop :=
  (r.localSide.qualifier = none ∨ r.remoteSide.qualifier = none) ∧ near.2 = far.2

/-- What a restriction comes to. The local side goes first. -/
inductive Pins (g : JoinGraph) (child parent : PlacedNode) (r : Restriction) :
    Except DeclarationError PinnedRestriction → Prop
  | localFails {e : DeclarationError} : g.Resolves child.2 child r.localSide (.error e) →
      Pins g child parent r (.error e)
  | remoteFails {near : PlacedNode} {e : DeclarationError} :
      g.Resolves child.2 child r.localSide (.ok near) →
      g.ResolvesRemote child parent near r.remoteSide (.error e) → Pins g child parent r (.error e)
  | meet {near far : PlacedNode} : g.BothResolve child parent r near far → MeetUnasked r near far →
      Pins g child parent r
        (.error (.selfRestriction r.localSide.text r.remoteSide.text near.1.tableAlias))
  | apart {near far : PlacedNode} : g.BothResolve child parent r near far →
      ¬ MeetUnasked r near far →
      Pins g child parent r
        (.ok ⟨r.comparison, near.column r.localSide.column, far.column r.remoteSide.column⟩)

/-! ## Lists of nodes -/

/-- A filter lists the nodes that have its property. -/
theorem lists_those (g : JoinGraph) {has : PlacedNode → Prop} {property : PlacedNode → Bool}
    (h : ∀ p, property p = true ↔ has p) : g.Lists has (g.those property) := by
  refine ⟨g.pairwise_placed.filter _, fun p => ?_⟩
  rw [those, List.mem_filter, h]
  exact and_congr_left' Arena.mem_placed

/-- There is one way to list the nodes with a property. -/
theorem Lists.unique {g : JoinGraph} {has : PlacedNode → Prop} {found others : List PlacedNode}
    (h : g.Lists has found) (h' : g.Lists has others) : found = others :=
  eq_of_ascending h.1 h'.1 fun p => (h.2 p).trans (h'.2 p).symm

/-- There is one list of nodes with a property, and the filter finds it. -/
theorem lists_iff {g : JoinGraph} {has : PlacedNode → Prop} {property : PlacedNode → Bool}
    (h : ∀ p, property p = true ↔ has p) {found : List PlacedNode} :
    g.Lists has found ↔ g.those property = found := by
  constructor
  · exact (g.lists_those h).unique
  · rintro rfl
    exact g.lists_those h

/-- Asking for the only node with a property, as searches do it. -/
theorem chooses_iff {g : JoinGraph} {has : PlacedNode → Prop} {property : PlacedNode → Bool}
    (h : ∀ p, property p = true ↔ has p) {missing : DeclarationError} {column : String}
    {outcome : Except DeclarationError PlacedNode} :
    g.Chooses has missing column outcome ↔
      (match g.those property with
        | [only] => .ok only
        | [] => .error missing
        | several => .error (.ambiguousColumn column (aliasesOf several))) = outcome := by
  constructor
  · intro hchooses
    cases hchooses with
    | only hlists => rw [(lists_iff h).mp hlists]
    | none hlists => rw [(lists_iff h).mp hlists]
    | @several found hlists hlength =>
      rw [(lists_iff h).mp hlists]
      match found, hlength with
      | _ :: _ :: _, _ => rfl
  · rintro rfl
    have hlists := g.lists_those h
    split
    next only heq => exact .only (heq ▸ hlists)
    next heq => exact .none (heq ▸ hlists)
    next hone hnone =>
      refine .several hlists ?_
      match hfound : g.those property with
      | [] => exact absurd hfound hnone
      | [p] => exact absurd hfound (hone p)
      | _ :: _ :: _ => exact Nat.le_add_left 2 _

/-! ## What a qualifier names -/

theorem eq_of_position {g : JoinGraph} {p q : PlacedNode} (hp : g.node? p.2 = some p.1)
    (hq : g.node? q.2 = some q.1) (h : p.2 = q.2) : p = q := by
  rw [h, hq, Option.some.injEq] at hp
  exact Prod.ext hp.symm h

theorem Aliased.unique {g : JoinGraph} {child : Nat} {name : String} {p q : PlacedNode}
    (hp : g.Aliased child name p) (hq : g.Aliased child name q) : p = q := by
  have hpq := hq.last p hp.node hp.named
  have hqp := hp.last q hq.node hq.named
  apply eq_of_position hp.node hq.node
  by_cases hpc : p.2 = child
  · by_cases hqc : q.2 = child
    · rw [hpc, hqc]
    · exact absurd hpc (hqp hqc).1
  · have hle := (hpq hpc).2
    have hge := (hqp (hpq hpc).1).2
    omega

/-- The nodes are those of the graph before and the one about to be joined. -/
theorem node?_pending_of_ne {g : JoinGraph} {n : Node} {i : Nat} (h : i ≠ g.size) :
    (g.pending n).1.node? i = g.node? i := by
  rw [node?_pending, if_neg h]

/-- What the search finds under an alias is the node that has it. -/
theorem Inv.aliased_of_byAlias? {g : JoinGraph} (h : g.Inv) {n : Node} {name : String}
    {p : PlacedNode} (hp : (g.pending n).1.byAlias? name = some p) :
    (g.pending n).1.Aliased g.size name p := by
  have hindex : (g.pending n).1.nodeByAlias? name = g.nodeByAlias? name := rfl
  cases hlookup : g.nodeByAlias? name with
  | some i =>
    obtain ⟨m, hm, hname, hlast⟩ := h.last_of_nodeByAlias? hlookup
    have hne : i ≠ g.size := Nat.ne_of_lt (lt_size_of_node? hm)
    have hnode : (g.pending n).1.node? i = some m := by rw [node?_pending_of_ne hne, hm]
    have hindexed : (g.pending n).1.indexed? name = some (m, i) :=
      indexed?_eq_some_iff.mpr ⟨hlookup, hnode⟩
    rw [byAlias?, hindexed, Option.some_or, Option.some.injEq] at hp
    rw [← hp]
    refine ⟨hnode, hname, fun q hq hqname hqne => ⟨hne, hlast q ?_ hqname⟩⟩
    rw [← hq, node?_pending_of_ne hqne]
  | none =>
    rw [byAlias?, indexed?, hindex, hlookup, Option.bind_none, Option.none_or] at hp
    have hname := List.find?_some hp
    rw [beq_iff_eq] at hname
    refine ⟨Arena.mem_placed.mp (List.mem_of_find?_eq_some hp), hname, ?_⟩
    intro q hq hqname hqne
    -- a node of the graph before would be in the index
    rw [node?_pending_of_ne hqne] at hq
    exact absurd (List.mem_map.mpr ⟨q, h.mem_placed.mpr hq, hqname⟩)
      (h.nodeByAlias?_eq_none_iff.mp hlookup)

/-- The search by alias fails exactly if no node has it. -/
theorem Inv.byAlias?_eq_none_iff {g : JoinGraph} (h : g.Inv) {n : Node} {name : String} :
    (g.pending n).1.byAlias? name = none ↔ (g.pending n).1.Unaliased name := by
  constructor
  · intro hnone p hp hname
    have hfind := List.find?_eq_none.mp (Option.or_eq_none_iff.mp hnone).2
    exact hfind p (Arena.mem_placed.mpr hp) (beq_iff_eq.mpr hname)
  · intro hno
    rw [Option.eq_none_iff_forall_ne_some]
    intro p hp
    have haliased := h.aliased_of_byAlias? hp
    exact hno p haliased.node haliased.named

theorem Inv.byAlias?_eq_some_iff {g : JoinGraph} (h : g.Inv) {n : Node} {name : String}
    {p : PlacedNode} :
    (g.pending n).1.byAlias? name = some p ↔ (g.pending n).1.Aliased g.size name p := by
  constructor
  · exact h.aliased_of_byAlias?
  · intro hp
    cases hfound : (g.pending n).1.byAlias? name with
    | none => exact absurd hp.named (h.byAlias?_eq_none_iff.mp hfound p hp.node)
    | some q => rw [(h.aliased_of_byAlias? hfound).unique hp]

/-- The search by relation tests what its rule says. -/
theorem related_iff {g : JoinGraph} {name : String} (p : PlacedNode) :
    (p.2 != g.root && p.1.relation == name) = true ↔ g.Related name p := by
  rw [Bool.and_eq_true, bne_iff_ne, beq_iff_eq]
  rfl

/-- The index has every joined node but the one about to be joined, whose name is free. -/
theorem Inv.nodeByRelation?_of_related {g : JoinGraph} (h : g.Inv) {n : Node}
    (hfree : g.nodeByRelation? n.relation = none) {name : String} {p : PlacedNode}
    (hp : (g.pending n).1.node? p.2 = some p.1) (hname : (g.pending n).1.Related name p) :
    g.nodeByRelation? name = if p.2 = g.size then none else some p.2 := by
  rw [node?_pending] at hp
  split
  next heq =>
    rw [if_pos heq, Option.some.injEq] at hp
    rw [← hname.2, ← hp]
    exact hfree
  next hne =>
    rw [if_neg hne] at hp
    have hroot : p.2 ≠ 0 := by
      rw [← h.root]
      exact hname.1
    exact h.nodeByRelation?_eq_some_iff.mpr ⟨p.1, h.mem_joined.mpr ⟨hroot, hp⟩, hname.2⟩

/-- Of all nodes, the one about to be joined among them, at most one is joined by a name. -/
theorem Inv.eq_of_related {g : JoinGraph} (h : g.Inv) {n : Node}
    (hfree : g.nodeByRelation? n.relation = none) {name : String} {p q : PlacedNode}
    (hp : (g.pending n).1.node? p.2 = some p.1) (hpname : (g.pending n).1.Related name p)
    (hq : (g.pending n).1.node? q.2 = some q.1) (hqname : (g.pending n).1.Related name q) :
    p = q := by
  have hposition := h.nodeByRelation?_of_related hfree hp hpname
  rw [h.nodeByRelation?_of_related hfree hq hqname] at hposition
  apply eq_of_position hp hq
  by_cases hpc : p.2 = g.size
  · by_cases hqc : q.2 = g.size
    · rw [hpc, hqc]
    · rw [if_pos hpc, if_neg hqc] at hposition
      exact nomatch hposition
  · by_cases hqc : q.2 = g.size
    · rw [if_neg hpc, if_pos hqc] at hposition
      exact nomatch hposition
    · rw [if_neg hpc, if_neg hqc, Option.some.injEq] at hposition
      exact hposition.symm

theorem byRelation?_eq_some_iff_lists {g : JoinGraph} {name : String} {p : PlacedNode} :
    g.byRelation? name = some p ↔ g.Lists (g.Related name) [p] :=
  byRelation?_eq_some_iff.trans (lists_iff related_iff).symm

/-- The search for the only node with a relation name fails for want of one, and never for finding
several. -/
theorem Inv.byRelation?_eq_none_iff {g : JoinGraph} (h : g.Inv) {n : Node}
    (hfree : g.nodeByRelation? n.relation = none) {name : String} :
    (g.pending n).1.byRelation? name = none ↔
      (g.pending n).1.Lists ((g.pending n).1.Related name) [] := by
  have hlists : (g.pending n).1.Lists ((g.pending n).1.Related name) _ :=
    lists_those _ related_iff
  constructor
  · intro hnone
    match hfound : (g.pending n).1.those fun p =>
      p.2 != (g.pending n).1.root && p.1.relation == name with
    | [] =>
      rw [hfound] at hlists
      exact hlists
    | [p] =>
      rw [byRelation?_eq_some_iff.mpr hfound] at hnone
      exact nomatch hnone
    | p :: q :: rest =>
      rw [hfound] at hlists
      obtain ⟨hp, hpn⟩ := (hlists.2 p).mp (List.mem_cons_self ..)
      obtain ⟨hq, hqn⟩ := (hlists.2 q).mp (List.mem_cons_of_mem _ (List.mem_cons_self ..))
      have hlt := (List.pairwise_cons.mp hlists.1).1 q (List.mem_cons_self ..)
      rw [h.eq_of_related hfree hp hpn hq hqn] at hlt
      exact absurd hlt (Nat.lt_irrefl _)
  · intro hnil
    rw [Option.eq_none_iff_forall_ne_some]
    intro p hp
    exact nomatch (byRelation?_eq_some_iff_lists.mp hp).unique hnil

theorem byTable_eq_iff {g : JoinGraph} {qualifier : String} {spec : ColumnSpec}
    {outcome : Except DeclarationError PlacedNode} :
    g.byTable qualifier spec = outcome ↔
      g.Chooses (·.1.entity.table = qualifier) (.unknownQualifier qualifier spec.text) spec.text
        outcome :=
  (chooses_iff fun _ => beq_iff_eq).symm

/-- The search for a qualifier follows its rule. -/
theorem Inv.named_eq_iff {g : JoinGraph} (h : g.Inv) {n : Node}
    (hfree : g.nodeByRelation? n.relation = none) {qualifier : String} {spec : ColumnSpec}
    {outcome : Except DeclarationError PlacedNode} :
    (g.pending n).1.named qualifier spec = outcome ↔
      (g.pending n).1.Names g.size qualifier spec.text outcome := by
  unfold named
  constructor
  · rintro rfl
    cases halias : (g.pending n).1.byAlias? qualifier with
    | some p => exact .byAlias (h.byAlias?_eq_some_iff.mp halias)
    | none =>
      have hno := h.byAlias?_eq_none_iff.mp halias
      cases hrelation : (g.pending n).1.byRelation? qualifier with
      | some p => exact .byRelation hno (byRelation?_eq_some_iff_lists.mp hrelation)
      | none =>
        exact .byTable hno ((h.byRelation?_eq_none_iff hfree).mp hrelation) (byTable_eq_iff.mp rfl)
  · intro hnames
    cases hnames with
    | byAlias hp =>
      rw [h.byAlias?_eq_some_iff.mpr hp]
      rfl
    | byRelation hno hp =>
      rw [h.byAlias?_eq_none_iff.mpr hno, byRelation?_eq_some_iff_lists.mpr hp]
      rfl
    | byTable hno hnil hchooses =>
      rw [h.byAlias?_eq_none_iff.mpr hno, (h.byRelation?_eq_none_iff hfree).mpr hnil]
      exact byTable_eq_iff.mpr hchooses

/-! ## Sides -/

theorem locateOn_of_true {p : PlacedNode} {column : String}
    (h : p.1.entity.hasColumn column = true) : locateOn p column = .ok p :=
  if_pos h

/-- A node that lacks it is named in the error. -/
theorem locateOn_of_false {p : PlacedNode} {column : String}
    (h : p.1.entity.hasColumn column = false) :
    locateOn p column = .error (.unknownColumn p.1.entity.table column) :=
  if_neg (by rw [h]; exact Bool.false_ne_true)

/-- A bare column that home lacks is searched for on all other nodes. -/
theorem locateBare_eq_iff_of_false {g : JoinGraph} {home : PlacedNode} {column : String}
    {outcome : Except DeclarationError PlacedNode} (h : home.1.entity.hasColumn column = false) :
    g.locateBare home column = outcome ↔
      g.Chooses (fun p => p.2 ≠ home.2 ∧ p.1.entity.hasColumn column = true)
        (.unknownColumn home.1.entity.table column) column outcome := by
  rw [locateBare, if_neg (by rw [h]; exact Bool.false_ne_true)]
  refine (chooses_iff fun p => ?_).symm
  rw [Bool.and_eq_true, bne_iff_ne]

/-- A column with a qualifier is searched for on the node that it names. -/
theorem locate_eq_of_some {g : JoinGraph} {home : PlacedNode} {spec : ColumnSpec}
    {qualifier : String} (hq : spec.qualifier = some qualifier) :
    g.locate home spec = g.named qualifier spec >>= (locateOn · spec.column) := by
  rw [locate, hq]

/-- The search for a column follows its rule. -/
theorem Inv.locate_eq_iff {g : JoinGraph} (h : g.Inv) {n : Node}
    (hfree : g.nodeByRelation? n.relation = none) {home : PlacedNode} {spec : ColumnSpec}
    {outcome : Except DeclarationError PlacedNode} :
    (g.pending n).1.locate home spec = outcome ↔
      (g.pending n).1.Resolves g.size home spec outcome := by
  constructor
  · rintro rfl
    cases hq : spec.qualifier with
    | some qualifier =>
      rw [locate_eq_of_some hq]
      cases hnamed : (g.pending n).1.named qualifier spec with
      | error e => exact .unnamed hq ((h.named_eq_iff hfree).mp hnamed)
      | ok p =>
        have hnames := (h.named_eq_iff hfree).mp hnamed
        show (g.pending n).1.Resolves g.size home spec (locateOn p spec.column)
        cases hcolumn : p.1.entity.hasColumn spec.column with
        | true =>
          rw [locateOn_of_true hcolumn]
          exact .named hq hnames hcolumn
        | false =>
          rw [locateOn_of_false hcolumn]
          exact .lacking hq hnames hcolumn
    | none =>
      rw [locate_eq_of_none hq]
      cases hcolumn : home.1.entity.hasColumn spec.column with
      | true =>
        rw [locateBare, if_pos hcolumn]
        exact .athome hq hcolumn
      | false => exact .abroad hq hcolumn ((locateBare_eq_iff_of_false hcolumn).mp rfl)
  · intro hresolves
    cases hresolves with
    | unnamed hq hnames =>
      rw [locate_eq_of_some hq, (h.named_eq_iff hfree).mpr hnames]
      rfl
    | named hq hnames hcolumn =>
      rw [locate_eq_of_some hq, (h.named_eq_iff hfree).mpr hnames]
      exact locateOn_of_true hcolumn
    | lacking hq hnames hcolumn =>
      rw [locate_eq_of_some hq, (h.named_eq_iff hfree).mpr hnames]
      exact locateOn_of_false hcolumn
    | athome hq hcolumn =>
      rw [locate_eq_of_none hq]
      exact if_pos hcolumn
    | abroad hq hcolumn hchooses =>
      rw [locate_eq_of_none hq]
      exact (locateBare_eq_iff_of_false hcolumn).mpr hchooses

/-- The search for a remote side follows its rule. -/
theorem Inv.locateRemote_eq_iff {g : JoinGraph} (h : g.Inv) {n : Node}
    (hfree : g.nodeByRelation? n.relation = none) {parent near : PlacedNode} {spec : ColumnSpec}
    {outcome : Except DeclarationError PlacedNode} :
    (g.pending n).1.locateRemote (n, g.size) parent near spec = outcome ↔
      (g.pending n).1.ResolvesRemote (n, g.size) parent near spec outcome := by
  have hmoved : (spec.qualifier.isNone && near.2 != g.size) = true ↔
      spec.qualifier = none ∧ near.2 ≠ g.size := by
    rw [Bool.and_eq_true, Option.isNone_iff_eq_none, bne_iff_ne]
  constructor
  · rintro rfl
    unfold locateRemote
    split
    next hmoves =>
      obtain ⟨hq, hne⟩ := hmoved.mp hmoves
      cases hcolumn : n.entity.hasColumn spec.column with
      | true =>
        rw [locateOn_of_true hcolumn]
        exact .onChild hq hne hcolumn
      | false =>
        rw [locateOn_of_false hcolumn]
        exact .offChild hq hne hcolumn
    next hstays =>
      refine .usual ?_ ((h.locate_eq_iff hfree).mp rfl)
      intro hq
      by_contra hne
      exact hstays (hmoved.mpr ⟨hq, hne⟩)
  · intro hresolves
    unfold locateRemote
    cases hresolves with
    | onChild hq hne hcolumn =>
      rw [if_pos (hmoved.mpr ⟨hq, hne⟩)]
      exact locateOn_of_true hcolumn
    | offChild hq hne hcolumn =>
      rw [if_pos (hmoved.mpr ⟨hq, hne⟩)]
      exact locateOn_of_false hcolumn
    | usual hstays hhome =>
      rw [if_neg]
      · exact (h.locate_eq_iff hfree).mpr hhome
      · intro hmoves
        obtain ⟨hq, hne⟩ := hmoved.mp hmoves
        exact hne (hstays hq)

/-! ## Restrictions -/

/-- The check for a restriction of a node against itself tests what its rule says. -/
theorem meetUnasked_iff {r : Restriction} {near far : PlacedNode} :
    (r.infers && near.2 == far.2) = true ↔ MeetUnasked r near far := by
  rw [Restriction.infers, Bool.and_eq_true, Bool.or_eq_true, Option.isNone_iff_eq_none,
    Option.isNone_iff_eq_none, beq_iff_eq]
  rfl

theorem between_of_meet {r : Restriction} {near far : PlacedNode} (h : MeetUnasked r near far) :
    between r near far =
      .error (.selfRestriction r.localSide.text r.remoteSide.text near.1.tableAlias) :=
  if_pos (meetUnasked_iff.mpr h)

theorem between_of_apart {r : Restriction} {near far : PlacedNode} (h : ¬ MeetUnasked r near far) :
    between r near far =
      .ok ⟨r.comparison, near.column r.localSide.column, far.column r.remoteSide.column⟩ :=
  if_neg (mt meetUnasked_iff.mp h)

/-- Once the local side is found, the remote side decides. -/
theorem pin_of_local {g : JoinGraph} {child parent near : PlacedNode} {r : Restriction}
    (h : g.locate child r.localSide = .ok near) :
    g.pin child parent r = g.locateRemote child parent near r.remoteSide >>= between r near := by
  rw [pin, h]
  rfl

/-- Once both are found, it only remains whether they meet. -/
theorem pin_of_both {g : JoinGraph} {child parent near far : PlacedNode} {r : Restriction}
    (hnear : g.locate child r.localSide = .ok near)
    (hfar : g.locateRemote child parent near r.remoteSide = .ok far) :
    g.pin child parent r = between r near far := by
  rw [pin_of_local hnear, hfar]
  rfl

/-- Pinning follows the rule. -/
theorem Inv.pin_eq_iff {g : JoinGraph} (h : g.Inv) {n : Node}
    (hfree : g.nodeByRelation? n.relation = none) {parent : PlacedNode} {r : Restriction}
    {outcome : Except DeclarationError PinnedRestriction} :
    (g.pending n).1.pin (n, g.size) parent r = outcome ↔
      (g.pending n).1.Pins (n, g.size) parent r outcome := by
  constructor
  · rintro rfl
    cases hnear : (g.pending n).1.locate (n, g.size) r.localSide with
    | error e =>
      rw [pin, hnear]
      exact .localFails ((h.locate_eq_iff hfree).mp hnear)
    | ok near =>
      have hlocal := (h.locate_eq_iff hfree).mp hnear
      cases hfar : (g.pending n).1.locateRemote (n, g.size) parent near r.remoteSide with
      | error e =>
        rw [pin_of_local hnear, hfar]
        exact .remoteFails hlocal ((h.locateRemote_eq_iff hfree).mp hfar)
      | ok far =>
        have hremote := (h.locateRemote_eq_iff hfree).mp hfar
        rw [pin_of_both hnear hfar]
        by_cases hmeet : MeetUnasked r near far
        · rw [between_of_meet hmeet]
          exact .meet ⟨hlocal, hremote⟩ hmeet
        · rw [between_of_apart hmeet]
          exact .apart ⟨hlocal, hremote⟩ hmeet
  · intro hpins
    cases hpins with
    | localFails hlocal =>
      rw [pin, (h.locate_eq_iff hfree).mpr hlocal]
      rfl
    | remoteFails hlocal hremote =>
      rw [pin_of_local ((h.locate_eq_iff hfree).mpr hlocal),
        (h.locateRemote_eq_iff hfree).mpr hremote]
      rfl
    | meet hboth hmeet =>
      rw [pin_of_both ((h.locate_eq_iff hfree).mpr hboth.1)
        ((h.locateRemote_eq_iff hfree).mpr hboth.2)]
      exact between_of_meet hmeet
    | apart hboth hapart =>
      rw [pin_of_both ((h.locate_eq_iff hfree).mpr hboth.1)
        ((h.locateRemote_eq_iff hfree).mpr hboth.2)]
      exact between_of_apart hapart

/-! ## Errors about both sides -/

/-- A choice among nodes is never refused for meeting itself. -/
theorem eq_self_of_chooses {g : JoinGraph} {has : PlacedNode → Prop} {missing : DeclarationError}
    {column a b c : String} (h : g.Chooses has missing column (.error (.selfRestriction a b c))) :
    missing = .selfRestriction a b c := by
  cases h with
  | none => rfl

theorem not_resolves_self {g : JoinGraph} {child : Nat} {home : PlacedNode} {spec : ColumnSpec}
    {a b c : String} : ¬ g.Resolves child home spec (.error (.selfRestriction a b c)) := by
  intro hresolves
  cases hresolves with
  | unnamed hq hnames =>
    cases hnames with
    | byTable _ _ hchooses => exact nomatch eq_self_of_chooses hchooses
  | abroad _ _ hchooses => exact nomatch eq_self_of_chooses hchooses

theorem not_resolvesRemote_self {g : JoinGraph} {child parent near : PlacedNode} {spec : ColumnSpec}
    {a b c : String} :
    ¬ g.ResolvesRemote child parent near spec (.error (.selfRestriction a b c)) := by
  intro hresolves
  cases hresolves with
  | usual _ hhome => exact not_resolves_self hhome

/-- That both sides are on one node is what a restriction fails with exactly if they resolve to one
unasked. -/
theorem exists_pins_self_iff {g : JoinGraph} {child parent : PlacedNode} {r : Restriction} :
    (∃ a b c, g.Pins child parent r (.error (.selfRestriction a b c))) ↔
      ∃ near far, g.BothResolve child parent r near far ∧ MeetUnasked r near far := by
  constructor
  · rintro ⟨a, b, c, hpins⟩
    cases hpins with
    | localFails hlocal => exact absurd hlocal not_resolves_self
    | remoteFails _ hremote => exact absurd hremote not_resolvesRemote_self
    | meet hboth hmeet => exact ⟨_, _, hboth, hmeet⟩
  · rintro ⟨near, far, hboth, hmeet⟩
    exact ⟨_, _, _, .meet hboth hmeet⟩

/-! ## Joins -/

/-- A node about to be joined to a parent has its restrictions pinned by the rule. -/
structure PinsByRule (g : JoinGraph) (n : Node) (parent : PlacedNode) : Prop where
  -- a text is the alias of a node or of none, and the relation name of one joined node or of none
  aliases : ∀ name, (g.pending n).1.Unaliased name ∨ ∃ p, (g.pending n).1.Aliased g.size name p
  alone : ∀ name p, (g.pending n).1.Lists (·.1.tableAlias = name) [p] →
    (g.pending n).1.Aliased g.size name p
  relations : ∀ name, (g.pending n).1.Lists ((g.pending n).1.Related name) [] ∨
    ∃ p, (g.pending n).1.Lists ((g.pending n).1.Related name) [p]
  pins : ∀ r outcome, (g.pending n).1.pin (n, g.size) parent r = outcome ↔
    (g.pending n).1.Pins (n, g.size) parent r outcome
  selfRestriction : ∀ r, (∃ a b c, (g.pending n).1.pin (n, g.size) parent r =
      .error (.selfRestriction a b c)) ↔
    ∃ near far, (g.pending n).1.BothResolve (n, g.size) parent r near far ∧ MeetUnasked r near far

/-- A graph that satisfies the invariant pins restrictions by rule. -/
theorem Inv.pinsByRule {g : JoinGraph} (h : g.Inv) {n : Node}
    (hfree : g.nodeByRelation? n.relation = none) (parent : PlacedNode) :
    g.PinsByRule n parent where
  aliases := by
    intro name
    cases hfound : (g.pending n).1.byAlias? name with
    | none => exact .inl (h.byAlias?_eq_none_iff.mp hfound)
    | some p => exact .inr ⟨p, h.byAlias?_eq_some_iff.mp hfound⟩
  alone := by
    intro name p hlists
    obtain ⟨hnode, hname⟩ := (hlists.2 p).mp (List.mem_singleton.mpr rfl)
    refine ⟨hnode, hname, fun q hq hqname hne => ?_⟩
    rw [← List.mem_singleton.mp ((hlists.2 q).mpr ⟨hq, hqname⟩)]
    exact ⟨hne, Nat.le_refl _⟩
  relations := by
    intro name
    cases hfound : (g.pending n).1.byRelation? name with
    | none => exact .inl ((h.byRelation?_eq_none_iff hfree).mp hfound)
    | some p => exact .inr ⟨p, byRelation?_eq_some_iff_lists.mp hfound⟩
  pins := fun _ _ => h.pin_eq_iff hfree
  selfRestriction := by
    intro r
    simp only [h.pin_eq_iff hfree]
    exact exists_pins_self_iff

/-- Once a declaration is accepted, a join comes to what its restrictions come to. -/
theorem outcome_join_of_checkJoin {g : JoinGraph} {parent : Nat} {spec : JoinSpec} {p : PlacedNode}
    (hp : g.checkJoin parent spec = .ok p) (aliases : AliasIssuer) :
    (g.join aliases parent spec).1.outcome =
      (spec.restrictions.mapM
        ((g.pending (spec.toNode (aliases.next spec.entity.table .joined).1)).1.pin
          (spec.toNode (aliases.next spec.entity.table .joined).1, g.size) p)).map
        fun _ => g.size := by
  rw [join, hp]
  rcases attach_cases g p spec (aliases.next spec.entity.table .joined).1 with
    ⟨e, hpins, hattach⟩ | ⟨pinned, hpins, hattach⟩
  · rw [hpins]
    exact congrArg Attempt.outcome hattach
  · rw [mapM_eq_ok_iff.mpr hpins]
    exact congrArg Attempt.outcome hattach

/-- With an accepted node about to be joined, each of its restrictions comes to what the rule says,
and the join to what they come to together: it succeeds if all of them can be pinned, and else fails
as the first one that cannot. -/
theorem pinsByRule_of_reachable {g : JoinGraph} (h : g.Reachable) {parent : Nat} {spec : JoinSpec}
    {p : PlacedNode} (hp : g.checkJoin parent spec = .ok p) (aliases : AliasIssuer) :
    ∃ n, n = spec.toNode (aliases.next spec.entity.table .joined).1 ∧ g.PinsByRule n p ∧
      (∀ e, (g.join aliases parent spec).1.outcome = .error e ↔
        ∃ before r after, spec.restrictions = before ++ r :: after ∧
          (∀ b ∈ before, ∃ t, (g.pending n).1.Pins (n, g.size) p b (.ok t)) ∧
          (g.pending n).1.Pins (n, g.size) p r (.error e)) ∧
      ((g.join aliases parent spec).1.outcome = .ok g.size ↔
        ∀ r ∈ spec.restrictions, ∃ t, (g.pending n).1.Pins (n, g.size) p r (.ok t)) := by
  have hfree : g.nodeByRelation? (spec.toNode
      (aliases.next spec.entity.table .joined).1).relation = none := (sound_of_checkJoin hp "").2.1
  have hrule := h.inv.pinsByRule hfree p
  refine ⟨_, rfl, hrule, fun e => ?_, ?_⟩
  · simp only [← hrule.pins]
    rw [outcome_join_of_checkJoin hp, map_eq_error_iff, mapM_eq_error_iff_append]
  · simp only [← hrule.pins]
    rw [outcome_join_of_checkJoin hp, map_const_eq_ok_iff, exists_mapM_eq_ok_iff]

end JoinGraph

namespace Warehouse

/-- Tickets under the parts. The parts are found for the first local side, and the tickets
themselves for the second, by their relation name. The third goes by the relation name of other
labels, so that its remote side is looked up on the tickets, in vain. -/
def tickets : JoinSpec :=
  { entity := labels, kind := .inner, relation := some "tickets"
    restrictions := [⟨.equals, .ofText "detail", .ofText "text"⟩,
      ⟨.equals, .ofText "tickets.part", .ofText "id"⟩,
      ⟨.equals, .ofText "labels.part", .ofText "id"⟩] }

/-- A failed join: two of its restrictions are pinned, and the third is the one in the error. -/
theorem pinsByRule_tickets :
    graph.Reachable ∧
      (graph.join .standard 1 tickets).1.outcome = .error (.unknownColumn "labels" "id") ∧
      ∃ n p, n = tickets.toNode (AliasIssuer.standard.next "labels" .joined).1 ∧
        graph.checkJoin 1 tickets = .ok p ∧ graph.PinsByRule n p ∧
        ∃ before r after, tickets.restrictions = before ++ r :: after ∧
          (∀ b ∈ before, ∃ t, (graph.pending n).1.Pins (n, graph.size) p b (.ok t)) ∧
          (graph.pending n).1.Pins (n, graph.size) p r (.error (.unknownColumn "labels" "id")) := by
  have hfails : (graph.join .standard 1 tickets).1.outcome =
      .error (.unknownColumn "labels" "id") := by decide +kernel
  have hok : (graph.checkJoin 1 tickets).isOk = true := by decide +kernel
  obtain ⟨p, hp⟩ := exists_of_isOk hok
  obtain ⟨n, hn, hrule, herror, _⟩ :=
    JoinGraph.pinsByRule_of_reachable reachable_graph hp .standard
  exact ⟨reachable_graph, hfails, n, p, hn, hp, hrule, (herror _).mp hfails⟩

-- the first two restrictions alone
example :
    ((graph.join .standard 1 { tickets with restrictions := tickets.restrictions.take 2 }).1.graph
      |>.incoming? 3).map (·.reference.pinned) =
        some [⟨.equals, ⟨1, "detail"⟩, ⟨3, "text"⟩⟩, ⟨.equals, ⟨3, "part"⟩, ⟨1, "id"⟩⟩] := by
  decide +kernel

end Warehouse

end Joinery
