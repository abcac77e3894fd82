import Joinery.Proofs.Alias.Uniqueness

/-!
# Steps are all or nothing

A join puts its node into the arena before it can tell whether the restrictions can be pinned.
Where one cannot, the node is the last of the arena and has no edges yet, so it goes without a
trace, and all that is left of the attempt is the alias it took (`Inv.join_eq_error`). A join that
succeeds adds one node, one reference and an entry in each index behind what was there
(`Extends`). A relation name is refused when it is taken; an alias is not, so the older entry for
it is lost where the issuer repeats itself, and only there (`Extends.keepsAliases_iff`).

A `Draft` is what was declared for a graph. A step that succeeds performs its declaration on the
draft, one that fails does nothing (`Workshop.drafts_step`); so after any run the graphs hold what
the calls that succeeded declared (`Workshop.drafts_run`).

The steps are those of the graph builder, above all `JoinGraph.join`.
-/

namespace Joinery

namespace JoinGraph

/-! ## Joins that fail -/

/-- The declaration is accepted, but its restrictions are not: with the node in the arena the first
of them that cannot be pinned fails in this way. -/
def FailsToPin (g : JoinGraph) (n : Node) (parent : Nat) (spec : JoinSpec) (e : DeclarationError) :
    Prop :=
  ∃ p r, g.checkJoin parent spec = .ok p ∧
    spec.restrictions.find? (fun r => !((g.pending n).1.pin (n, g.size) p r).isOk) = some r ∧
    (g.pending n).1.pin (n, g.size) p r = .error e

/-- A join that fails leaves the graph as it was, and takes an alias only for pinning. -/
theorem Inv.join_eq_error {g : JoinGraph} (h : g.Inv) {aliases : AliasIssuer} {parent : Nat}
    {spec : JoinSpec} {e : DeclarationError}
    (hfails : (g.join aliases parent spec).1.outcome = .error e) :
    (g.join aliases parent spec).1.graph = g ∧
      (g.checkJoin parent spec = .error e ∧ (g.join aliases parent spec).2 = aliases ∨
        g.FailsToPin (spec.toNode (aliases.next spec.entity.table .joined).1) parent spec e ∧
          (g.join aliases parent spec).2 = { aliases with issued := aliases.issued + 1 }) := by
  rcases join_cases g aliases parent spec with ⟨d, hcheck, hjoin⟩ | ⟨p, hcheck, hjoin⟩
  · rw [hjoin] at hfails ⊢
    rw [Except.error.inj hfails] at hcheck
    exact ⟨rfl, .inl ⟨hcheck, rfl⟩⟩
  · rw [hjoin] at hfails ⊢
    rcases attach_cases g p spec (aliases.next spec.entity.table .joined).1 with
      ⟨d, hpin, hattach⟩ | ⟨pinned, _, hattach⟩
    · rw [hattach] at hfails ⊢
      rw [Except.error.inj hfails] at hpin
      obtain ⟨r, hr, hd⟩ := mapM_eq_error_iff.mp hpin
      exact ⟨withdraw_pending h _, .inr ⟨⟨p, r, hcheck, hr, hd⟩, rfl⟩⟩
    · rw [hattach] at hfails
      exact nomatch hfails

/-! ## Joins that succeed -/

/-- One graph is the other with a node joined to a parent behind all that was there. -/
structure Extends (g h : JoinGraph) (parent : Nat) (n : Node) (r : Reference) : Prop where
  root : h.root = g.root
  nodes : h.arena.nodes = g.arena.nodes ++ [n]
  edges : h.arena.edges = g.arena.edges ++ [⟨parent, g.size, r⟩]
  references : h.references = g.references ++ [g.arena.edges.length]
  -- the relation name was free, so that no entry is lost
  free : g.nodeByRelation? n.relation = none
  byRelation : ∀ name, h.nodeByRelation? name =
    if name = n.relation then some g.size else g.nodeByRelation? name
  byAlias : ∀ name, h.nodeByAlias? name =
    if name = n.tableAlias then some g.size else g.nodeByAlias? name

/-- A new entry hides older ones of its name. -/
theorem lookup_cons_eq_ite (name key : String) (i : Nat) (entries : List (String × Nat)) :
    ((key, i) :: entries).lookup name = if name = key then some i else entries.lookup name := by
  rw [List.lookup_cons]
  by_cases hname : name = key
  · rw [if_pos hname, hname, beq_self_eq_true]
  · rw [if_neg hname, beq_eq_false_iff_ne.mpr hname]

/-- Growing a graph extends it by the new node and nothing else. -/
theorem extends_grown {g : JoinGraph} {parent : Nat} {n : Node} {r : Reference}
    (hfree : g.nodeByRelation? n.relation = none) : g.Extends (g.grown parent n r) parent n r where
  root := rfl
  nodes := rfl
  edges := rfl
  references := rfl
  free := hfree
  byRelation := fun name => lookup_cons_eq_ite name n.relation g.size g.relationIndex
  byAlias := fun name => lookup_cons_eq_ite name n.tableAlias g.size g.aliasIndex

/-- A join that succeeds adds its node, which takes the first position that is free. -/
theorem extends_of_join_eq_ok {g : JoinGraph} {aliases : AliasIssuer} {parent i : Nat}
    {spec : JoinSpec} (hok : (g.join aliases parent spec).1.outcome = .ok i) :
    i = g.size ∧ (g.join aliases parent spec).2 = { aliases with issued := aliases.issued + 1 } ∧
      ∃ pinned, g.Extends (g.join aliases parent spec).1.graph parent
        (spec.toNode (aliases.next spec.entity.table .joined).1) ⟨spec.restrictions, pinned⟩ := by
  rcases join_cases g aliases parent spec with ⟨d, _, hjoin⟩ | ⟨p, hcheck, hjoin⟩
  · rw [hjoin] at hok
    exact nomatch hok
  · rw [hjoin] at hok ⊢
    obtain ⟨_, hposition, hfault⟩ := checkJoin_eq_ok_iff.mp hcheck
    rcases attach_cases g p spec (aliases.next spec.entity.table .joined).1 with
      ⟨d, _, hattach⟩ | ⟨pinned, _, hattach⟩
    · rw [hattach] at hok
      exact nomatch hok
    · rw [hattach] at hok ⊢
      rw [← hposition]
      exact ⟨(Except.ok.inj hok).symm, rfl, pinned,
        extends_grown (fault?_eq_none_iff.mp hfault).2.2.1⟩

/-- Every alias leads to the node that it led to before. -/
def KeepsAliases (g h : JoinGraph) : Prop :=
  ∀ name i, g.nodeByAlias? name = some i → h.nodeByAlias? name = some i

/-- What the index of aliases has is a position of the graph. -/
theorem Inv.lt_size_of_nodeByAlias? {g : JoinGraph} (h : g.Inv) {name : String} {i : Nat}
    (hi : g.nodeByAlias? name = some i) : i < g.size := by
  obtain ⟨n, hn, _⟩ := h.last_of_nodeByAlias? hi
  exact lt_size_of_node? hn

/-- An entry of the alias index is lost exactly if the new node has an alias of another one. -/
theorem Extends.keepsAliases_iff {g h : JoinGraph} (hg : g.Inv) {parent : Nat} {n : Node}
    {r : Reference} (hextends : g.Extends h parent n r) :
    g.KeepsAliases h ↔ n.tableAlias ∉ g.tableAliases := by
  rw [← hg.nodeByAlias?_eq_none_iff]
  constructor
  · intro hkeeps
    cases hold : g.nodeByAlias? n.tableAlias with
    | none => rfl
    | some i =>
      have hlt := hg.lt_size_of_nodeByAlias? hold
      have hnew := hkeeps _ _ hold
      rw [hextends.byAlias, if_pos rfl, Option.some.injEq] at hnew
      omega
  · intro hnone name i hi
    rw [hextends.byAlias, if_neg]
    · exact hi
    · intro hname
      rw [hname, hnone] at hi
      exact nomatch hi

end JoinGraph

/-! ## What was declared for a graph -/

/-- A parent, the node joined to it, and the restrictions that were declared between them. -/
abbrev DeclaredJoin := Nat × Nat × List Restriction

/-- The nodes that were declared, and how they were joined. -/
structure Draft where
  nodes : List Node
  joins : List DeclaredJoin

namespace Draft

def ofRoot (root : Node) : Draft :=
  ⟨[root], []⟩

/-- The draft after a node has been asked to show more columns. -/
def showing (d : Draft) (i : Nat) (columns : Entity → List (String × String)) : Draft :=
  { d with nodes := d.nodes.modify i fun n => n.showing (columns n.entity) }

/-- The draft with a node joined under another. -/
def joining (d : Draft) (parent : Nat) (n : Node) (restrictions : List Restriction) : Draft :=
  ⟨d.nodes ++ [n], d.joins ++ [(parent, d.nodes.length, restrictions)]⟩

/-- The drafts after a declaration, with an alias from the issuer where it takes one. Nothing is
checked. -/
def perform (drafts : List Draft) : AliasIssuer × BuildStep → List Draft
  | (aliases, .start entity) =>
    drafts ++ [ofRoot (JoinGraph.rootOf entity (aliases.next entity.table .root).1)]
  | (_, .project i node column output) =>
    drafts.modify i (·.showing node fun _ => [(column, output)])
  | (_, .projectAll i node) => drafts.modify i (·.showing node Node.everyColumn)
  | (aliases, .join i parent spec) =>
    drafts.modify i (·.joining parent
      (spec.toNode (aliases.next spec.entity.table .joined).1) spec.restrictions)

end Draft

namespace JoinGraph

/-- A graph as its declarations determine it. -/
def draft (g : JoinGraph) : Draft :=
  ⟨g.placed.map (·.1), g.links.map fun l => (l.parent, l.child, l.reference.declared)⟩

/-- The nodes and references of a graph in declaration order are those of its arena. -/
theorem Inv.draft_eq {g : JoinGraph} (h : g.Inv) :
    g.draft = ⟨g.arena.nodes,
      g.arena.edges.map fun edge => (edge.source, edge.target, edge.weight.declared)⟩ := by
  have hnodes : g.placed.map (·.1) = g.arena.nodes := by
    rw [h.placed_eq]
    exact List.zipIdx_map_fst ..
  have hjoins : (g.links.map fun l => (l.parent, l.child, l.reference.declared)) =
      g.arena.edges.map fun edge => (edge.source, edge.target, edge.weight.declared) := by
    apply List.ext_getElem?
    intro e
    rw [List.getElem?_map, List.getElem?_map, h.getElem?_links]
    cases hl : g.link? e with
    | some l =>
      obtain ⟨edge, n, m, hedge, _, _, rfl⟩ := link?_eq_some_iff.mp hl
      rw [show g.arena.edges[e]? = some edge from hedge]
      rfl
    | none =>
      rw [← h.getElem?_links, List.getElem?_eq_none_iff, h.length_links] at hl
      rw [List.getElem?_eq_none hl]
      rfl
  rw [draft, hnodes, hjoins]

/-- Showing columns does to the draft what it does to the graph. -/
theorem Inv.draft_showAt {g : JoinGraph} (h : g.Inv) {i : Nat} {n : Node}
    (columns : Entity → List (String × String)) (hn : g.node? i = some n)
    (hshown : (g.showAt i (columns n.entity)).Inv) :
    (g.showAt i (columns n.entity)).draft = g.draft.showing i columns := by
  have hnodes : g.arena.nodes.modify i (·.showing (columns n.entity)) =
      g.arena.nodes.modify i fun m => m.showing (columns m.entity) := by
    apply List.ext_getElem?
    intro j
    rw [List.getElem?_modify, List.getElem?_modify]
    by_cases hij : i = j
    · rw [← hij, show g.arena.nodes[i]? = some n from hn]
      rfl
    · simp only [hij, if_false]
  rw [hshown.draft_eq, h.draft_eq, Draft.showing, ← hnodes]
  rfl

/-- A graph extended by a node has the draft with the node joined. -/
theorem Inv.draft_of_extends {g h : JoinGraph} (hg : g.Inv) (hh : h.Inv) {parent : Nat} {n : Node}
    {r : Reference} (hextends : g.Extends h parent n r) :
    h.draft = g.draft.joining parent n r.declared := by
  rw [hh.draft_eq, hg.draft_eq, hextends.nodes, hextends.edges, List.map_append]
  rfl

end JoinGraph

namespace Workshop

def drafts (w : Workshop) : List Draft :=
  w.graphs.map JoinGraph.draft

/-- The calls of a run that succeed, each with the issuer as it was when the call was made. -/
def successes (w : Workshop) : List BuildStep → List (AliasIssuer × BuildStep)
  | [] => []
  | s :: rest =>
    (if (w.step s).1.isOk then [(w.aliases, s)] else []) ++ (w.step s).2.successes rest

/-- An attempt that fails leaves all drafts, and one that succeeds changes the draft it is for. -/
theorem drafts_attempt {α : Type} {w : Workshop} {i : Nat}
    {tried : JoinGraph → Attempt α × AliasIssuer} {change : Draft → Draft}
    (hfails : ∀ g ∈ w.graphs, ∀ e, (tried g).1.outcome = .error e → (tried g).1.graph = g)
    (hok : ∀ g ∈ w.graphs, ∀ a, (tried g).1.outcome = .ok a →
      (tried g).1.graph.draft = change g.draft) :
    (w.attempt i tried).2.drafts =
      if (w.attempt i tried).1.isOk then w.drafts.modify i change else w.drafts := by
  unfold attempt
  cases hg : w.graph? i with
  | none => rfl
  | some g =>
    have hmem : g ∈ w.graphs := List.mem_of_getElem? hg
    show (w.graphs.set i (tried g).1.graph).map JoinGraph.draft =
      if ((tried g).1.outcome.map fun _ => ()).isOk then w.drafts.modify i change else w.drafts
    cases houtcome : (tried g).1.outcome with
    | error e =>
      obtain ⟨hi, hget⟩ := List.getElem?_eq_some_iff.mp hg
      rw [hfails g hmem e houtcome, ← hget, List.set_getElem_self]
      rfl
    | ok a =>
      have hdraft : (w.graphs.map JoinGraph.draft)[i]? = some g.draft := by
        rw [List.getElem?_map, show w.graphs[i]? = some g from hg, Option.map_some]
      rw [drafts, List.map_set, hok g hmem a houtcome, List.modify_eq_set_getElem?, hdraft]
      rfl

/-- A step that fails leaves all drafts, and one that succeeds performs what it declares. -/
theorem drafts_step {w : Workshop} (hw : ∀ g ∈ w.graphs, g.Reachable) (s : BuildStep) :
    (w.step s).2.drafts =
      if (w.step s).1.isOk then Draft.perform w.drafts (w.aliases, s) else w.drafts := by
  cases s with
  | start entity =>
    rcases JoinGraph.start_cases w.aliases entity with ⟨_, _, hstart⟩ | ⟨_, hstart⟩
    · simp only [step, hstart]
      rfl
    · simp only [step, hstart, drafts, List.map_append]
      rfl
  | project i node column output =>
    refine drafts_attempt ?_ ?_
    · intro g _ e hfails
      exact g.graph_of_project_eq_error hfails
    · intro g hg _ hok
      have hinv := (hw g hg).inv
      have hshown := JoinGraph.inv_project hinv node column output
      rcases g.project_cases node column output with ⟨e, hfails⟩ | ⟨n, hn, _, hshows⟩
      · rw [hfails] at hok
        cases hok
      · rw [hshows] at hshown ⊢
        exact hinv.draft_showAt (fun _ => [(column, output)]) hn hshown
  | projectAll i node =>
    refine drafts_attempt ?_ ?_
    · intro g _ e hfails
      exact g.graph_of_projectAll_eq_error hfails
    · intro g hg _ hok
      have hinv := (hw g hg).inv
      have hshown := JoinGraph.inv_projectAll hinv node
      rcases g.projectAll_cases node with ⟨e, hfails⟩ | ⟨n, hn, hshows⟩
      · rw [hfails] at hok
        cases hok
      · rw [hshows] at hshown ⊢
        exact hinv.draft_showAt Node.everyColumn hn hshown
  | join i parent spec =>
    refine drafts_attempt ?_ ?_
    · intro g hg e hfails
      exact ((hw g hg).inv.join_eq_error hfails).1
    · intro g hg _ hok
      obtain ⟨_, _, pinned, hextends⟩ := JoinGraph.extends_of_join_eq_ok hok
      exact (hw g hg).inv.draft_of_extends ((hw g hg).join w.aliases parent spec).inv hextends

/-- After a run the graphs hold what the calls that succeeded declared, in their order. -/
theorem drafts_run {w : Workshop} (hw : ∀ g ∈ w.graphs, g.Reachable) (steps : List BuildStep) :
    (w.run steps).2.drafts = (w.successes steps).foldl Draft.perform w.drafts := by
  induction steps generalizing w with
  | nil => rfl
  | cons s rest ih =>
    show ((w.step s).2.run rest).2.drafts = _
    rw [ih (reachable_step hw s), drafts_step hw s, successes]
    split
    next => rfl
    next => rfl

/-- While the prefixes are apart, no node has the alias that is issued next. -/
theorem next_notMem_tableAliases {a : AliasIssuer} (ha : a.Apart) (steps : List BuildStep)
    {g : JoinGraph} (hg : g ∈ ((ofIssuer a).run steps).2.graphs) (table : String) (role : Role) :
    (((ofIssuer a).run steps).2.aliases.next table role).1 ∉ g.tableAliases := by
  obtain ⟨more, hmore, hperm⟩ := tableAliases_run (w := ofIssuer a)
    (fun g hg => absurd hg List.not_mem_nil) steps
  intro hmem
  have hissued : (((ofIssuer a).run steps).2.aliases.next table role).1 ∈
      (a.issue ((ofIssuer a).requests steps)).1 :=
    hmore.subset (hperm.mem_iff.mp (List.mem_flatMap.mpr ⟨g, hg, hmem⟩))
  rw [aliases_run] at hissued
  exact ha.next_notMem_issue _ table role hissued

end Workshop

/-- What may be taken for granted of the steps on a graph. -/
structure JoinGraph.Atomic (g : JoinGraph) : Prop where
  -- a join that fails leaves the graph, and takes an alias if it comes to the restrictions
  joinFails : ∀ aliases parent spec e, (g.join aliases parent spec).1.outcome = .error e →
    (g.join aliases parent spec).1.graph = g ∧
      (g.checkJoin parent spec = .error e ∧ (g.join aliases parent spec).2 = aliases ∨
        g.FailsToPin (spec.toNode (aliases.next spec.entity.table .joined).1) parent spec e ∧
          (g.join aliases parent spec).2 = { aliases with issued := aliases.issued + 1 })
  -- one that succeeds adds its node at the first free position and keeps what was there, but for
  -- the entry of an alias that is issued again
  joinSucceeds : ∀ aliases parent spec i, (g.join aliases parent spec).1.outcome = .ok i →
    i = g.size ∧
    (g.join aliases parent spec).2 = { aliases with issued := aliases.issued + 1 } ∧
    (∃ pinned, g.Extends (g.join aliases parent spec).1.graph parent
      (spec.toNode (aliases.next spec.entity.table .joined).1) ⟨spec.restrictions, pinned⟩) ∧
    (g.KeepsAliases (g.join aliases parent spec).1.graph ↔
      (aliases.next spec.entity.table .joined).1 ∉ g.tableAliases)
  projectFails : ∀ node column output e, (g.project node column output).outcome = .error e →
    (g.project node column output).graph = g
  projectAllFails : ∀ node e, (g.projectAll node).outcome = .error e →
    (g.projectAll node).graph = g

/-- A join is all or nothing, up to the alias it takes. -/
theorem JoinGraph.Inv.atomic {g : JoinGraph} (h : g.Inv) : g.Atomic where
  joinFails := fun aliases parent spec e => h.join_eq_error
  joinSucceeds := by
    intro aliases parent spec i hok
    obtain ⟨hi, hissued, pinned, hextends⟩ := extends_of_join_eq_ok hok
    exact ⟨hi, hissued, ⟨pinned, hextends⟩, hextends.keepsAliases_iff h⟩
  projectFails := fun node column output e => g.graph_of_project_eq_error
  projectAllFails := fun node e => g.graph_of_projectAll_eq_error

/-- Whatever is joined next to a graph of the workshop, aliases lead to the nodes that they led to
before. -/
def Workshop.KeepsAliases (w : Workshop) : Prop :=
  ∀ g ∈ w.graphs, ∀ parent spec i, (g.join w.aliases parent spec).1.outcome = .ok i →
    g.KeepsAliases (g.join w.aliases parent spec).1.graph

/-- Where aliases never clash, no graph loses one from its index. -/
theorem Workshop.keepsAliases_run {a : AliasIssuer} (ha : a.Apart) (steps : List BuildStep) :
    ((ofIssuer a).run steps).2.KeepsAliases := by
  intro g hg parent spec i hok
  obtain ⟨_, _, pinned, hextends⟩ := JoinGraph.extends_of_join_eq_ok hok
  have hreachable := reachable_run (w := ofIssuer a) (fun g hg => absurd hg List.not_mem_nil) steps
  exact (hextends.keepsAliases_iff (hreachable g hg).inv).mpr
    (next_notMem_tableAliases ha steps hg spec.entity.table .joined)

/-- Steps on a graph are atomic. After any steps on any graphs these hold what the calls that
succeeded declared, and while the prefixes of their issuer are apart, no join loses an entry of
an index. -/
theorem JoinGraph.atomic_of_reachable {g : JoinGraph} (h : g.Reachable) :
    g.Atomic ∧ ∀ a steps,
      ((Workshop.ofIssuer a).run steps).2.drafts =
        ((Workshop.ofIssuer a).successes steps).foldl Draft.perform [] ∧
      (a.Apart → ((Workshop.ofIssuer a).run steps).2.KeepsAliases) := by
  refine ⟨h.inv.atomic, fun a steps => ⟨?_, fun ha => Workshop.keepsAliases_run ha steps⟩⟩
  exact Workshop.drafts_run (w := Workshop.ofIssuer a)
    (fun g hg => absurd hg List.not_mem_nil) steps

namespace Warehouse

/-- Labels under the parts, of which the second restriction names no column. -/
def misspelt : JoinSpec :=
  { entity := labels, kind := .inner, relation := some "notes"
    restrictions := [⟨.equals, .ofText "part", .ofText "id"⟩,
      ⟨.like, .ofText "text", .ofText "nope"⟩] }

/-- The first restriction is pinned to the new node, and yet nothing of it stays. -/
theorem join_misspelt :
    graph.Reachable ∧
      (graph.join .standard 1 misspelt).1.outcome = .error (.unknownColumn "parts" "nope") ∧
      (graph.join .standard 1 misspelt).1.graph = graph ∧
      (graph.join .standard 1 misspelt).2.issued = 1 := by
  have hfails : (graph.join .standard 1 misspelt).1.outcome =
      .error (.unknownColumn "parts" "nope") := by decide +kernel
  obtain ⟨hgraph, hissued⟩ :=
    (JoinGraph.atomic_of_reachable reachable_graph).1.joinFails .standard 1 misspelt _ hfails
  refine ⟨reachable_graph, hfails, hgraph, ?_⟩
  rcases hissued with ⟨hcheck, _⟩ | ⟨_, hissued⟩
  · exact absurd hcheck (by decide +kernel)
  · rw [hissued]
    rfl

/-- Prefixes that are not apart: the root of the second parts and the parts joined to it get the
same alias, which then leads to the latter only. -/
theorem not_forall_keepsAliases :
    ¬ ∀ (a : AliasIssuer) (steps : List BuildStep),
      ((Workshop.ofIssuer a).run steps).2.KeepsAliases := by
  intro h
  have hkeeps := h (.withPrefixes "t" "t1_")
    [.start ((Entity.ofTable "2_parts").withColumn "id" .integer)]
    (JoinGraph.ofRoot (JoinGraph.rootOf ((Entity.ofTable "2_parts").withColumn "id" .integer)
      "t1_2_parts"))
    (by decide +kernel) 0 { entity := parts, kind := .natural } 1 (by decide +kernel)
    "t1_2_parts" 0 (by decide +kernel)
  exact absurd hkeeps (by decide +kernel)

end Warehouse

end Joinery
