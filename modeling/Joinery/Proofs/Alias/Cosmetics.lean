import Joinery.Proofs.Alias.RenamedSteps

/-!
# Aliases are cosmetic

Issuers with different prefixes, or of which one has been in use before, answer the same steps with
different aliases. Steps can speak of aliases, and a step that does so may fare well in one run and
badly in the other. As long as none does, the two runs go the same way: `Workshop.Renames` says that
one workshop has the graphs of the other with their aliases renamed, a step keeps it and has the
same answer in both (`Renames.step`), and so does a run (`Renames.run`). An answer is what a run
says of a step (`outcomes_run`), together with the position of the node that the step adds.

What is then made of the graphs depends on the names of their nodes in one place only. A view takes
relation names and aliases as names of one kind, and a graph in which two of them meet has no view;
so relation names have to be apart from aliases as well (`accessorsOf_isOk_of_run`).

The steps are those of the graph builder, `JoinGraph.start`, `project`, `projectAll` and `join`.
-/

namespace Joinery

namespace BuildStep

/-- The qualifiers that a step is written with. -/
def qualifiers : BuildStep → List String
  | .join _ _ spec => spec.restrictions.flatMap Restriction.qualifiers
  | _ => []

/-- The relation names that a step gives. -/
def relations : BuildStep → List String
  | .join _ _ spec => [spec.relationName]
  | _ => []

/-- The names that a step speaks of: those it gives and those it looks up. -/
def names (s : BuildStep) : List String :=
  s.relations ++ s.qualifiers

end BuildStep

namespace Workshop

/-! ## Answers -/

/-- What a step on one graph answers. -/
def reply (w : Workshop) (i : Nat) (tried : JoinGraph → Except DeclarationError (Option Nat)) :
    Except DeclarationError (Option Nat) :=
  match w.graph? i with
  | none => .error .unknownParent
  | some g => tried g

/-- What came of a step, with the position of the node that it adds, if it adds one. -/
def answer (w : Workshop) : BuildStep → Except DeclarationError (Option Nat)
  | .start entity => (JoinGraph.start w.aliases entity).1.map fun g => some g.root
  | .project i node column output =>
    w.reply i fun g => (g.project node column output).outcome.map fun _ => none
  | .projectAll i node => w.reply i fun g => (g.projectAll node).outcome.map fun _ => none
  | .join i parent spec => w.reply i fun g => (g.join w.aliases parent spec).1.outcome.map some

/-- What all steps of a script answer, in order. -/
def answers (w : Workshop) : List BuildStep → List (Except DeclarationError (Option Nat))
  | [] => []
  | s :: rest => w.answer s :: (w.step s).2.answers rest

/-- The outcome of a step on one graph is that of what was tried, without its result. -/
theorem outcome_attempt {α : Type} (w : Workshop) (i : Nat)
    (tried : JoinGraph → Attempt α × AliasIssuer) :
    (w.attempt i tried).1 = match w.graph? i with
      | none => .error .unknownParent
      | some g => (tried g).1.outcome.map fun _ => () := by
  unfold attempt
  cases w.graph? i with
  | none => rfl
  | some g => rfl

/-- An answer says of a step what the step says, and more. -/
theorem outcome_step (w : Workshop) (s : BuildStep) :
    (w.step s).1 = (w.answer s).map fun _ => () := by
  cases s with
  | start entity =>
    rcases JoinGraph.start_cases w.aliases entity with ⟨_, _, hstart⟩ | ⟨_, hstart⟩
    · simp only [step, answer, hstart]
      rfl
    · simp only [step, answer, hstart]
      rfl
  | project i node column output =>
    rw [step, outcome_attempt, answer, reply]
    cases w.graph? i with
    | none => rfl
    | some g => exact (map_forget _ _).symm
  | projectAll i node =>
    rw [step, outcome_attempt, answer, reply]
    cases w.graph? i with
    | none => rfl
    | some g => exact (map_forget _ _).symm
  | join i parent spec =>
    rw [step, outcome_attempt, answer, reply]
    cases w.graph? i with
    | none => rfl
    | some g => exact (map_forget _ _).symm

/-- A script comes out as it is answered, except that a joined node's position is not among the
outcomes. -/
theorem outcomes_run (w : Workshop) (steps : List BuildStep) :
    (w.run steps).1 = (w.answers steps).map (·.map fun _ => ()) := by
  induction steps generalizing w with
  | nil => rfl
  | cons s rest ih =>
    show (w.step s).1 :: ((w.step s).2.run rest).1 = _
    rw [outcome_step, ih]
    rfl

/-! ## Steps -/

/-- The step speaks of no alias, of none that a node has and not of the one that it asks for. -/
def Ignores (w : Workshop) (s : BuildStep) : Prop :=
  ∀ qualifier ∈ s.qualifiers, qualifier ∉ w.tableAliases ∧
    ∀ call ∈ w.request? s, qualifier ≠ (w.aliases.next call.1 call.2).1

/-- One workshop has the graphs of the other, renamed. -/
structure Renames (f : String → String) (w w' : Workshop) : Prop where
  graphs : w'.graphs = w.graphs.map (JoinGraph.renamed f)
  reachable : ∀ g ∈ w.graphs, g.Reachable
  reachable' : ∀ g ∈ w'.graphs, g.Reachable

variable {f : String → String} {w w' : Workshop}

/-- Graphs at one position are renamed copies of one another. -/
theorem Renames.graph? (h : Renames f w w') (i : Nat) :
    w'.graph? i = (w.graph? i).map (JoinGraph.renamed f) := by
  unfold Workshop.graph?
  rw [h.graphs, List.getElem?_map]

/-- A graph of the first workshop has its renamed copy in the second. -/
theorem Renames.graph?_eq_some (h : Renames f w w') {i : Nat} {g : JoinGraph}
    (hg : w.graph? i = some g) : w'.graph? i = some (g.renamed f) := by
  rw [h.graph?, hg]
  rfl

/-- Graphs of both workshops satisfy the invariant. -/
theorem Renames.inv (h : Renames f w w') {i : Nat} {g : JoinGraph} (hg : w.graph? i = some g) :
    g.Inv ∧ (g.renamed f).Inv :=
  ⟨(h.reachable g (List.mem_of_getElem? hg)).inv,
    (h.reachable' _ (List.mem_of_getElem? (h.graph?_eq_some hg))).inv⟩

/-- Both runs ask for aliases at the same steps. -/
theorem Renames.request? (h : Renames f w w') (s : BuildStep) : w'.request? s = w.request? s := by
  cases s with
  | start | project | projectAll => rfl
  | join i parent spec =>
    rw [Workshop.request?, Workshop.request?, h.graph?]
    cases w.graph? i with
    | none => rfl
    | some g =>
      show (if ((g.renamed f).checkJoin parent spec).isOk then _ else _) =
        if (g.checkJoin parent spec).isOk then _ else _
      rw [g.isOk_checkJoin_renamed f]

/-- Steps that leave renamed graphs behind leave renamed workshops behind. -/
theorem Renames.graphs_attempt {α : Type} (h : Renames f w w') {i : Nat}
    {tried tried' : JoinGraph → Attempt α × AliasIssuer}
    (htried : ∀ g, w.graph? i = some g →
      (tried' (g.renamed f)).1.graph = (tried g).1.graph.renamed f) :
    (w'.attempt i tried').2.graphs = (w.attempt i tried).2.graphs.map (JoinGraph.renamed f) := by
  unfold attempt
  rw [h.graph?]
  cases hg : w.graph? i with
  | none => exact h.graphs
  | some g =>
    show w'.graphs.set i (tried' (g.renamed f)).1.graph =
      (w.graphs.set i (tried g).1.graph).map (JoinGraph.renamed f)
    rw [h.graphs, List.map_set, htried g hg]

/-- Steps that answer alike but for names do so in both workshops. -/
theorem Renames.reply (h : Renames f w w') {i : Nat}
    {tried tried' : JoinGraph → Except DeclarationError (Option Nat)}
    (htried : ∀ g, w.graph? i = some g →
      tried' (g.renamed f) = (tried g).mapError (DeclarationError.renamed f)) :
    w'.reply i tried' = (w.reply i tried).mapError (DeclarationError.renamed f) := by
  unfold Workshop.reply
  rw [h.graph?]
  cases hg : w.graph? i with
  | none => rfl
  | some g => exact htried g hg

/-- Starting adds a graph, or nothing if the root has a defect. -/
theorem graphs_start (w : Workshop) (entity : Entity) :
    (w.step (.start entity)).2.graphs = match (JoinGraph.start w.aliases entity).1 with
      | .error _ => w.graphs
      | .ok g => w.graphs ++ [g] := by
  rcases JoinGraph.start_cases w.aliases entity with ⟨_, _, hstart⟩ | ⟨_, hstart⟩
  · simp only [step, hstart]
  · simp only [step, hstart]

/-- A join that ignores the alias it gets and those that are there qualifies nothing by one of
them. -/
theorem Ignores.join {i parent : Nat} {spec : JoinSpec} (h : w.Ignores (.join i parent spec))
    {g : JoinGraph} (hg : w.graph? i = some g) (hchecked : (g.checkJoin parent spec).isOk = true) :
    ∀ r ∈ spec.restrictions, ∀ qualifier ∈ r.qualifiers,
      qualifier ∉ (w.aliases.next spec.entity.table .joined).1 :: g.tableAliases := by
  intro r hr qualifier hq
  obtain ⟨hfree, hnext⟩ := h qualifier (List.mem_flatMap.mpr ⟨r, hr, hq⟩)
  rw [List.mem_cons, not_or]
  constructor
  · refine hnext (spec.entity.table, .joined) ?_
    rw [Workshop.request?, hg]
    exact if_pos hchecked
  · intro hmem
    exact hfree (List.mem_flatMap.mpr ⟨g, List.mem_of_getElem? hg, hmem⟩)

/-- A step that speaks of no alias comes to the same in both workshops. -/
theorem Renames.step (h : Renames f w w') {s : BuildStep}
    (hask : ∀ call ∈ w.request? s,
      f (w.aliases.next call.1 call.2).1 = (w'.aliases.next call.1 call.2).1)
    (hignores : w.Ignores s) (hignores' : w'.Ignores s) :
    w'.answer s = (w.answer s).mapError (DeclarationError.renamed f) ∧
      Renames f (w.step s).2 (w'.step s).2 := by
  suffices w'.answer s = (w.answer s).mapError (DeclarationError.renamed f) ∧
      (w'.step s).2.graphs = (w.step s).2.graphs.map (JoinGraph.renamed f) from
    ⟨this.1, this.2, reachable_step h.reachable s, reachable_step h.reachable' s⟩
  cases s with
  | start entity =>
    have hstart := JoinGraph.start_renamed f fun hdefect =>
      hask (entity.table, .root) (if_pos hdefect)
    rw [graphs_start, graphs_start, answer, answer, hstart]
    cases (JoinGraph.start w.aliases entity).1 with
    | error e => exact ⟨rfl, h.graphs⟩
    | ok g =>
      refine ⟨rfl, ?_⟩
      show w'.graphs ++ [g.renamed f] = (w.graphs ++ [g]).map (JoinGraph.renamed f)
      rw [List.map_append, h.graphs]
      rfl
  | project i node column output =>
    refine ⟨h.reply fun g _ => ?_, h.graphs_attempt fun g _ => ?_⟩
    · rw [(g.project_renamed f node column output).1, map_mapError]
    · exact (g.project_renamed f node column output).2
  | projectAll i node =>
    refine ⟨h.reply fun g _ => ?_, h.graphs_attempt fun g _ => ?_⟩
    · rw [(g.projectAll_renamed f node).1, map_mapError]
    · exact (g.projectAll_renamed f node).2
  | join i parent spec =>
    have hjoin {g : JoinGraph} (hg : w.graph? i = some g) := by
      refine @JoinGraph.join_renamed f g (h.inv hg).1 (h.inv hg).2 w.aliases w'.aliases parent spec
        fun hchecked => ?_
      have hchecked' : ((g.renamed f).checkJoin parent spec).isOk = true := by
        rw [g.isOk_checkJoin_renamed f, hchecked]
      refine ⟨hask (spec.entity.table, .joined) ?_, fun r hr qualifier hq =>
        ⟨hignores.join hg hchecked r hr qualifier hq,
          hignores'.join (h.graph?_eq_some hg) hchecked' r hr qualifier hq⟩⟩
      rw [Workshop.request?, hg]
      exact if_pos hchecked
    refine ⟨h.reply fun g hg => ?_, h.graphs_attempt fun g hg => (hjoin hg).2⟩
    rw [(hjoin hg).1, map_mapError]

/-! ## Runs -/

/-- No step of the run speaks of an alias. -/
def IgnoresAll (w : Workshop) : List BuildStep → Prop
  | [] => True
  | s :: rest => w.Ignores s ∧ (w.step s).2.IgnoresAll rest

/-- The aliases that a run issues. -/
def issues (w : Workshop) (steps : List BuildStep) : List String :=
  (w.aliases.issue (w.requests steps)).1

/-- A script issues what its first step asks for, and then what the rest does. -/
theorem issues_cons (w : Workshop) (s : BuildStep) (rest : List BuildStep) :
    w.issues (s :: rest) =
      (w.aliases.issue (w.request? s).toList).1 ++ (w.step s).2.issues rest := by
  rw [issues, requests, AliasIssuer.issue_append, issues, aliases_step]

/-- What is neither an alias in the workshop nor issued in the run is none at any time of it. -/
theorem ignoresAll_of_notMem {w : Workshop} (hw : ∀ g ∈ w.graphs, g.Reachable)
    {steps : List BuildStep}
    (hfree : ∀ s ∈ steps, ∀ qualifier ∈ s.qualifiers,
      qualifier ∉ w.tableAliases ∧ qualifier ∉ w.issues steps) : w.IgnoresAll steps := by
  induction steps generalizing w with
  | nil => exact trivial
  | cons s rest ih =>
    rw [issues_cons] at hfree
    refine ⟨fun qualifier hq => ?_, ih (reachable_step hw s) fun next hnext qualifier hq => ?_⟩
    · obtain ⟨hold, hnew⟩ := hfree s (List.mem_cons_self ..) qualifier hq
      refine ⟨hold, ?_⟩
      rintro call hcall rfl
      rw [Option.mem_def.mp hcall] at hnew
      exact hnew (List.mem_append_left _ (List.mem_cons_self ..))
    · obtain ⟨hold, hnew⟩ := hfree next (List.mem_cons_of_mem _ hnext) qualifier hq
      obtain ⟨more, hmore, hperm⟩ := tableAliases_step hw s
      refine ⟨?_, fun hlater => hnew (List.mem_append_right _ hlater)⟩
      rw [hperm.mem_iff, List.mem_append, not_or]
      exact ⟨hold, fun hmem => hnew (List.mem_append_left _ (hmore.subset hmem))⟩

/-- Two runs of steps that speak of no alias go the same way, from workshops that differ by a
renaming; it has to rename each alias that the one issues to the one that the other issues at its
place. -/
theorem Renames.run (h : Renames f w w') {steps : List BuildStep} (hignores : w.IgnoresAll steps)
    (hignores' : w'.IgnoresAll steps)
    (hissues : ∀ p ∈ (w.issues steps).zip (w'.issues steps), f p.1 = p.2) :
    w'.issues steps = (w.issues steps).map f ∧
      w'.answers steps = (w.answers steps).map (·.mapError (DeclarationError.renamed f)) ∧
      Renames f (w.run steps).2 (w'.run steps).2 := by
  induction steps generalizing w w' with
  | nil => exact ⟨rfl, rfl, h⟩
  | cons s rest ih =>
    -- both runs ask at this step or neither does, so both lists of aliases split at the same place
    rw [issues_cons, issues_cons, h.request?,
      List.zip_append (by rw [AliasIssuer.length_issue, AliasIssuer.length_issue])] at hissues
    have hask : ∀ call ∈ w.request? s,
        f (w.aliases.next call.1 call.2).1 = (w'.aliases.next call.1 call.2).1 := by
      intro call hcall
      rw [Option.mem_def.mp hcall] at hissues
      exact hissues (_, _) (List.mem_append_left _ (List.mem_singleton_self _))
    obtain ⟨hanswer, hnext⟩ := h.step hask hignores.1 hignores'.1
    obtain ⟨hlater, hanswers, hlast⟩ := ih hnext hignores.2 hignores'.2
      fun p hp => hissues p (List.mem_append_right _ hp)
    refine ⟨?_, ?_, hlast⟩
    · rw [issues_cons, issues_cons, h.request?, hlater, List.map_append]
      congr 1
      cases hcall : w.request? s with
      | none => rfl
      | some call => exact congrArg ([·]) (hask call hcall).symm
    · rw [answers, answers, hanswer, hanswers]
      rfl

/-! ## Relation names -/

/-- Joined nodes go by the relation names that the steps give. -/
theorem relations_step {P : String → Prop} (hw : ∀ g ∈ w.graphs, g.Reachable)
    (hold : ∀ g ∈ w.graphs, ∀ entry ∈ g.relationIndex, P entry.1) {s : BuildStep}
    (hs : ∀ name ∈ s.relations, P name) :
    ∀ g ∈ (w.step s).2.graphs, ∀ entry ∈ g.relationIndex, P entry.1 := by
  cases s with
  | start entity =>
    rw [graphs_start]
    rcases JoinGraph.start_cases w.aliases entity with ⟨_, _, hstart⟩ | ⟨_, hstart⟩
    · rw [hstart]
      exact hold
    · rw [hstart]
      intro g hg
      rcases List.mem_append.mp hg with hg | hg
      · exact hold g hg
      · rw [List.mem_singleton.mp hg]
        exact fun entry hentry => nomatch hentry
  | project i node column output =>
    refine forall_attempt hold fun g hg => ?_
    rcases g.project_cases node column output with ⟨e, hfails⟩ | ⟨n, _, _, hshows⟩
    · rw [hfails]
      exact hold g hg
    · rw [hshows]
      exact hold g hg
  | projectAll i node =>
    refine forall_attempt hold fun g hg => ?_
    rcases g.projectAll_cases node with ⟨e, hfails⟩ | ⟨n, _, hshows⟩
    · rw [hfails]
      exact hold g hg
    · rw [hshows]
      exact hold g hg
  | join i parent spec =>
    refine forall_attempt hold fun g hg => ?_
    show ∀ entry ∈ (g.join w.aliases parent spec).1.graph.relationIndex, P entry.1
    rcases JoinGraph.join_of_inv (hw g hg).inv w.aliases parent spec with
      ⟨e, hjoin⟩ | ⟨p, n, pinned, _, rfl, _, hjoin⟩
    · rw [hjoin]
      exact hold g hg
    · rw [hjoin]
      intro entry hentry
      rcases List.mem_cons.mp hentry with rfl | hentry
      · exact hs _ (List.mem_singleton_self _)
      · exact hold g hg entry hentry

/-- A property of all relations that a script declares holds of all relations in its graphs. -/
theorem relations_run {P : String → Prop} (hw : ∀ g ∈ w.graphs, g.Reachable)
    (hold : ∀ g ∈ w.graphs, ∀ entry ∈ g.relationIndex, P entry.1) {steps : List BuildStep}
    (hsteps : ∀ s ∈ steps, ∀ name ∈ s.relations, P name) :
    ∀ g ∈ (w.run steps).2.graphs, ∀ entry ∈ g.relationIndex, P entry.1 := by
  induction steps generalizing w with
  | nil => exact hold
  | cons s rest ih =>
    exact ih (reachable_step hw s) (relations_step hw hold (hsteps s (List.mem_cons_self ..)))
      fun next hnext => hsteps next (List.mem_cons_of_mem _ hnext)

end Workshop

/-! ## Views -/

namespace JoinGraph

/-- No joined node goes by an alias of the graph as its relation name. -/
def RelationsApart (g : JoinGraph) : Prop :=
  ∀ p ∈ g.joined, p.1.relation ∉ g.tableAliases

/-- Where aliases differ from each other and from relation names, the graph has a view. -/
theorem Inv.accessorsOf_isOk {g : JoinGraph} (h : g.Inv) (hd : g.DistinctAliases)
    (hapart : g.RelationsApart) : (View.accessorsOf g).isOk = true := by
  rw [h.accessorsOf_isOk_iff_namesApart hd]
  intro p hp q hq heq
  exact hapart p hp (List.mem_cons_of_mem _ (List.mem_map.mpr ⟨q, hq, heq.symm⟩))

end JoinGraph

namespace View

/-- One view is the other with its aliases renamed. As an entity it is the same, with the same
columns, the same key and the same types, and it has the same relations; its query speaks of the
tables by their new aliases. -/
structure Renames (f : String → String) (v v' : View) : Prop where
  graph : v'.graph = v.graph.renamed f
  entity : v'.toEntity = v.toEntity
  key : v'.key = v.key
  columns : v'.columns = v.columns.mapValues (ProjectedColumn.renamed f)
  manifest : v'.manifest = v.manifest
  query : ∀ c : Compiler,
    (v'.withCompiler c).query = (v.withCompiler c).query.map (Query.renamed f)
  relations : ∀ l ∈ v.graph.links,
    v'.relations.get? l.childNode.relation = v.relations.get? l.childNode.relation ∧
    v'.relations.get? (f l.childNode.tableAlias) = v.relations.get? l.childNode.tableAlias

/-- Views of a graph and its renamed copy compile alike, and have the same columns, key and
types. -/
theorem renames_of_accessors {f : String → String} {g : JoinGraph} (h : g.Inv) (name : String)
    {relations relations' : Registry Accessor} (haccessors : accessorsOf g = .ok relations)
    (haccessors' : accessorsOf (g.renamed f) = .ok relations') :
    Renames f ⟨name, g, {}, relations⟩ ⟨name, g.renamed f, {}, relations'⟩ where
  graph := rfl
  entity := toEntity_renamed h rfl rfl
  key := g.key_renamed f h
  columns := columns_renamed h rfl
  manifest := manifest_renamed h rfl
  query := fun c => @query_renamed f ⟨name, g, c, relations⟩ ⟨name, g.renamed f, c, relations'⟩
    h rfl rfl
  relations := by
    intro l hl
    have hl' : l.renamed f ∈ (g.renamed f).links := by
      rw [g.links_renamed]
      exact List.mem_map_of_mem hl
    obtain ⟨hrelation, halias⟩ := get?_of_link haccessors hl
    obtain ⟨hrelation', halias'⟩ := get?_of_link haccessors' hl'
    exact ⟨hrelation'.trans hrelation.symm, halias'.trans halias.symm⟩

end View

namespace JoinGraph

/-- One graph is the other with its aliases renamed, and so is what is made of it: the key is the
same, it compiles in the same cases, to the same query but for the aliases, and it has the same
views. -/
structure Renames (f : String → String) (g g' : JoinGraph) : Prop where
  graph : g' = g.renamed f
  key : g'.key = g.key
  compiled : ∀ c : Compiler, c.compile g' = (c.compile g).map (Query.renamed f)
  refused : ∀ name e, View.create name g' = .error e ↔ View.create name g = .error e
  viewed : ∀ name v, View.create name g = .ok v →
    ∃ v', View.create name g' = .ok v' ∧ View.Renames f v v'

/-- A graph and its renamed copy give the same query, key, relations and views but for the
aliases. -/
theorem Inv.renames {f : String → String} {g : JoinGraph} (h : g.Inv)
    (hok : (View.accessorsOf g).isOk = true)
    (hok' : (View.accessorsOf (g.renamed f)).isOk = true) : Renames f g (g.renamed f) := by
  obtain ⟨relations, haccessors⟩ := exists_of_isOk hok
  obtain ⟨relations', haccessors'⟩ := exists_of_isOk hok'
  refine ⟨rfl, g.key_renamed f h, fun c => c.compile_renamed f h, fun name e => ?_,
    fun name v hv => ?_⟩
  · rw [View.create_of_accessors haccessors, View.create_of_accessors haccessors']
    split
    next => exact Iff.rfl
    next => exact iff_of_false (fun h => nomatch h) (fun h => nomatch h)
  · rw [View.create_of_accessors haccessors] at hv
    rw [View.create_of_accessors haccessors']
    split at hv
    next => exact nomatch hv
    next hname =>
      rw [if_neg hname, ← Except.ok.inj hv]
      exact ⟨_, rfl, View.renames_of_accessors h name haccessors haccessors'⟩

end JoinGraph

/-! ## Two issuers -/

namespace Workshop

/-- What nodes have as aliases after a run from the beginning was issued in it, each once. -/
theorem tableAliases_ofIssuer (a : AliasIssuer) (steps : List BuildStep) :
    ∃ more, more.Sublist ((ofIssuer a).issues steps) ∧
      ((ofIssuer a).run steps).2.tableAliases.Perm more :=
  @tableAliases_run (ofIssuer a) (fun _ hg => absurd hg List.not_mem_nil) steps

/-- After a run whose aliases differ from each other and from the relation names, every graph has a
view. -/
theorem accessorsOf_isOk_of_run {a : AliasIssuer} {steps : List BuildStep}
    (ha : ((ofIssuer a).issues steps).Nodup)
    (hnames : ∀ s ∈ steps, ∀ name ∈ s.relations, name ∉ (ofIssuer a).issues steps) :
    ∀ g ∈ ((ofIssuer a).run steps).2.graphs, (View.accessorsOf g).isOk = true := by
  intro g hg
  have hnone : ∀ g ∈ (ofIssuer a).graphs, g.Reachable := fun _ hg => absurd hg List.not_mem_nil
  have hinv : g.Inv := (reachable_run hnone steps g hg).inv
  obtain ⟨more, hmore, hperm⟩ := tableAliases_ofIssuer a steps
  refine hinv.accessorsOf_isOk ?_ ?_
  · exact (List.nodup_flatMap.mp (hperm.nodup_iff.mpr (ha.sublist hmore))).1 g hg
  · intro p hp halias
    have hentry : (p.1.relation, p.2) ∈ g.relationIndex := by
      rw [hinv.relationIndex, JoinGraph.mem_listing, ← hinv.joined_eq]
      exact ⟨p.1, hp, rfl⟩
    refine relations_run hnone (fun _ hg => absurd hg List.not_mem_nil) hnames g hg _ hentry ?_
    exact hmore.subset (hperm.subset (List.mem_flatMap.mpr ⟨g, hg, halias⟩))

/-- The text that stands in one list where a text stands in the other. -/
def counterpart (old new : List String) (text : String) : String :=
  ((old.zip new).lookup text).getD text

/-- Pairs of two lists begin with members of the first, in order. -/
theorem map_fst_zip_sublist {α β : Type} (as : List α) (bs : List β) :
    ((as.zip bs).map (·.1)).Sublist as := by
  induction as generalizing bs with
  | nil => exact List.Sublist.refl _
  | cons a as ih =>
    cases bs with
    | nil => exact List.nil_sublist _
    | cons b bs => exact (ih bs).cons_cons a

/-- The counterpart of an old alias is the new one at its place. -/
theorem counterpart_of_mem_zip {old new : List String} (h : old.Nodup) {p : String × String}
    (hp : p ∈ old.zip new) : counterpart old new p.1 = p.2 := by
  rw [counterpart, (lookup_eq_some_iff_mem (h.sublist (map_fst_zip_sublist old new))).mpr hp]
  rfl

end Workshop

/-- Two runs of the same steps, whose issuers may differ in prefixes and in how much they have
issued, do the same as long as the aliases of each run differ and no step speaks of one of either
run. There is one renaming from the aliases of the first to those of the second, under which every
step has the same answer and the same outcome, and every graph is the same, with the same key, the
same query and the same views. -/
theorem Workshop.renames_of_ofIssuer {a b : AliasIssuer} {steps : List BuildStep}
    (ha : ((ofIssuer a).issues steps).Nodup) (hb : ((ofIssuer b).issues steps).Nodup)
    (hnames : ∀ s ∈ steps, ∀ name ∈ s.names,
      name ∉ (ofIssuer a).issues steps ∧ name ∉ (ofIssuer b).issues steps) :
    ∃ f : String → String,
      (ofIssuer b).issues steps = ((ofIssuer a).issues steps).map f ∧
      (∀ old ∈ (ofIssuer a).issues steps, ∀ other ∈ (ofIssuer a).issues steps,
        f old = f other → old = other) ∧
      (ofIssuer b).answers steps =
        ((ofIssuer a).answers steps).map (·.mapError (DeclarationError.renamed f)) ∧
      ((ofIssuer b).run steps).1 =
        ((ofIssuer a).run steps).1.map (·.mapError (DeclarationError.renamed f)) ∧
      List.Forall₂ (JoinGraph.Renames f) ((ofIssuer a).run steps).2.graphs
        ((ofIssuer b).run steps).2.graphs := by
  have hnone (c : AliasIssuer) : ∀ g ∈ (ofIssuer c).graphs, g.Reachable :=
    fun _ hg => absurd hg List.not_mem_nil
  have hqualifier {c : AliasIssuer}
      (hfree : ∀ s ∈ steps, ∀ name ∈ s.names, name ∉ (ofIssuer c).issues steps) :
      (ofIssuer c).IgnoresAll steps :=
    ignoresAll_of_notMem (hnone c) fun s hs qualifier hq =>
      ⟨List.not_mem_nil, hfree s hs qualifier (List.mem_append_right _ hq)⟩
  have hfree : ∀ s ∈ steps, ∀ name ∈ s.names, name ∉ (ofIssuer a).issues steps :=
    fun s hs name hname => (hnames s hs name hname).1
  have hfree' : ∀ s ∈ steps, ∀ name ∈ s.names, name ∉ (ofIssuer b).issues steps :=
    fun s hs name hname => (hnames s hs name hname).2
  obtain ⟨f, hf⟩ : ∃ f : String → String,
      ∀ p ∈ ((ofIssuer a).issues steps).zip ((ofIssuer b).issues steps), f p.1 = p.2 :=
    ⟨counterpart _ _, fun p => counterpart_of_mem_zip ha⟩
  have hstart : Renames f (ofIssuer a) (ofIssuer b) := ⟨rfl, hnone a, hnone b⟩
  obtain ⟨hissues, hanswers, hlast⟩ := hstart.run (hqualifier hfree) (hqualifier hfree') hf
  refine ⟨f, hissues, ?_, hanswers, ?_, ?_⟩
  · rw [hissues] at hb
    exact fun old hold other hother => List.inj_on_of_nodup_map hb hold hother
  · rw [outcomes_run, outcomes_run, hanswers, List.map_map, List.map_map]
    exact List.map_congr_left fun answer _ => map_mapError answer _ _
  · rw [hlast.graphs, List.forall₂_map_right_iff, List.forall₂_same]
    intro g hg
    have hg' : g.renamed f ∈ ((ofIssuer b).run steps).2.graphs := by
      rw [hlast.graphs]
      exact List.mem_map_of_mem hg
    exact (hlast.reachable g hg).inv.renames
      (accessorsOf_isOk_of_run ha (fun s hs name hname =>
        hfree s hs name (List.mem_append_left _ hname)) g hg)
      (accessorsOf_isOk_of_run hb (fun s hs name hname =>
        hfree' s hs name (List.mem_append_left _ hname)) _ hg')

namespace Warehouse

/-- Widgets with two kinds of parts. Labels cannot be joined to the details of either. -/
def spares : List BuildStep :=
  [.start widgets,
    .join 0 0 {
      entity := parts, kind := .left
      restrictions := [⟨.equals, .ofText "parts.id", .ofText "widgets.part_id"⟩] },
    .join 0 0 {
      entity := parts, kind := .left, relation := some "spares"
      restrictions := [⟨.equals, .ofText "spares.id", .ofText "part_id"⟩] },
    .join 0 0 {
      entity := labels, kind := .inner
      restrictions := [⟨.equals, .ofText "detail", .ofText "id"⟩] },
    .projectAll 0 2]

/-- An issuer with other prefixes, which has been in use for a while. -/
def usedIssuer : AliasIssuer :=
  ⟨"root_", "node_", 41⟩

/-- Spare parts under another issuer: all aliases differ, and the answers only in the aliases that
an error lists. -/
theorem renames_spares :
    ∃ f : String → String,
      ["t1_widgets", "j2_parts", "j3_parts", "j4_labels"].map f =
        ["root_42_widgets", "node_43_parts", "node_44_parts", "node_45_labels"] ∧
      (Workshop.ofIssuer usedIssuer).answers spares =
        [.ok (some 0), .ok (some 1), .ok (some 2),
          .error (.ambiguousColumn "detail" [f "j2_parts", f "j3_parts"]), .ok none] ∧
      List.Forall₂ (JoinGraph.Renames f) ((Workshop.ofIssuer .standard).run spares).2.graphs
        ((Workshop.ofIssuer usedIssuer).run spares).2.graphs := by
  have hissues : (Workshop.ofIssuer .standard).issues spares =
      ["t1_widgets", "j2_parts", "j3_parts", "j4_labels"] := by decide +kernel
  have hissues' : (Workshop.ofIssuer usedIssuer).issues spares =
      ["root_42_widgets", "node_43_parts", "node_44_parts", "node_45_labels"] := by decide +kernel
  have hanswers : (Workshop.ofIssuer .standard).answers spares =
      [.ok (some 0), .ok (some 1), .ok (some 2),
        .error (.ambiguousColumn "detail" ["j2_parts", "j3_parts"]), .ok none] := by
    decide +kernel
  obtain ⟨f, hmap, _, hsame, _, hgraphs⟩ := @Workshop.renames_of_ofIssuer .standard usedIssuer spares
    (by decide +kernel) (by decide +kernel) (by decide +kernel)
  rw [hissues, hissues'] at hmap
  rw [hanswers] at hsame
  exact ⟨f, hmap.symm, hsame, hgraphs⟩

end Warehouse

end Joinery
