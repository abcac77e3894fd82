import Joinery.Proofs.Alias.Collisions
import Joinery.Proofs.Graph.Coherence

/-!
# No alias is issued twice

An issuer never repeats a number, so it repeats an alias only where the prefix for one role
mimics the prefix for the other. While neither does, any requests are answered with aliases
that are all different (`nodup_issue`).

Graphs that grow side by side ask one issuer. Each step asks for one alias at most
(`aliases_step`), and gives it to the node it adds or, where a join fails after asking, to none
(`tableAliases_step`). So the aliases of all nodes of all graphs are among those issued, each
once (`tableAliases_run`), and they differ because the issued ones do.

This is about `AliasIssuer.next`, and about the builder's steps as they call it.
-/

namespace Joinery

namespace AliasIssuer

/-- The aliases for a list of requests, and the issuer that has issued them. -/
def issue (a : AliasIssuer) : List (String × Role) → List String × AliasIssuer
  | [] => ([], a)
  | (table, role) :: rest =>
    ((a.next table role).1 :: ((a.next table role).2.issue rest).1,
      ((a.next table role).2.issue rest).2)

theorem issue_append (a : AliasIssuer) (first second : List (String × Role)) :
    a.issue (first ++ second) =
      ((a.issue first).1 ++ ((a.issue first).2.issue second).1,
        ((a.issue first).2.issue second).2) := by
  induction first generalizing a with
  | nil => rfl
  | cons call rest ih =>
    rw [List.cons_append, issue, issue, ih]
    rfl

theorem length_issue (a : AliasIssuer) (calls : List (String × Role)) :
    (a.issue calls).1.length = calls.length := by
  induction calls generalizing a with
  | nil => rfl
  | cons call rest ih => exact congrArg (· + 1) (ih (a.next call.1 call.2).2)

/-- Neither prefix mimics the other. -/
def Apart (a : AliasIssuer) : Prop :=
  ¬ Mimics a.rootPrefix.toList a.joinPrefix.toList ∧
    ¬ Mimics a.joinPrefix.toList a.rootPrefix.toList

/-- Where prefixes are apart, neither mimics the other. -/
theorem Apart.not_mimics {a : AliasIssuer} (h : a.Apart) (role other : Role) :
    ¬ Mimics (a.prefixOf role).toList (a.prefixOf other).toList := by
  cases role with
  | root =>
    cases other with
    | root => exact not_mimics_self _
    | joined => exact h.1
  | joined =>
    cases other with
    | root => exact h.2
    | joined => exact not_mimics_self _

/-- With prefixes apart, aliases with different numbers differ, whatever their roles and tables. -/
theorem Apart.aliasChars_ne {a : AliasIssuer} (h : a.Apart) {n m : Nat} (hn : 0 < n) (hm : 0 < m)
    (hne : n ≠ m) (role other : Role) (table name : List Char) :
    aliasChars (a.prefixOf role).toList n table ≠ aliasChars (a.prefixOf other).toList m name := by
  intro heq
  rcases aliasChars_cases hn hm heq with ⟨_, hnm⟩ | hmimics | hmimics
  · exact hne hnm
  · exact h.not_mimics _ _ hmimics
  · exact h.not_mimics _ _ hmimics

/-- Every request gets the next number, under the prefix for its role. -/
theorem getElem?_issue (a : AliasIssuer) (calls : List (String × Role)) (i : Nat) :
    (a.issue calls).1[i]? = calls[i]?.map fun call =>
      String.ofList (aliasChars (a.prefixOf call.2).toList (a.issued + i + 1) call.1.toList) := by
  induction calls generalizing a i with
  | nil => rfl
  | cons call rest ih =>
    cases i with
    | zero => rfl
    | succ i =>
      show ((a.next call.1 call.2).2.issue rest).1[i]? = rest[i]?.map _
      rw [ih]
      congr 1
      funext other
      rw [prefixOf_next, issued_next]
      congr 2
      omega

/-- Prefixes that are apart never give an alias twice, whatever is asked for in whatever order. -/
theorem nodup_issue {a : AliasIssuer} (h : a.Apart) (calls : List (String × Role)) :
    (a.issue calls).1.Nodup := by
  rw [List.nodup_iff_getElem?_ne_getElem?]
  intro i j hlt hj heq
  rw [List.getElem?_eq_getElem hj, getElem?_issue] at heq
  obtain ⟨call, _, hcall⟩ := Option.map_eq_some_iff.mp heq
  have hget := getElem?_issue a calls j
  rw [List.getElem?_eq_getElem hj] at hget
  obtain ⟨other, _, hother⟩ := Option.map_eq_some_iff.mp hget.symm
  exact h.aliasChars_ne (by omega) (by omega) (by omega) call.2 other.2 call.1.toList
    other.1.toList (String.ofList_injective (hcall.trans hother.symm))

/-- What is issued next is none of what was issued before. -/
theorem Apart.next_notMem_issue {a : AliasIssuer} (h : a.Apart) (calls : List (String × Role))
    (table : String) (role : Role) :
    ((a.issue calls).2.next table role).1 ∉ (a.issue calls).1 := by
  have hnodup := nodup_issue h (calls ++ [(table, role)])
  rw [issue_append] at hnodup
  intro hmem
  exact (List.nodup_append.mp hnodup).2.2 _ hmem _ (List.mem_singleton_self _) rfl

/-! ## Prefixes that are apart -/

/-- The other text is the first, followed by text that starts with a digit from 1 to 9. -/
def GoesOnWithDigit (start other : List Char) : Prop :=
  ∃ c rest, '1' ≤ c ∧ c ≤ '9' ∧ other = start ++ c :: rest

/-- Neither prefix is the other with more behind it that starts with a digit from 1 to 9. -/
def Separated (a : AliasIssuer) : Prop :=
  ¬ GoesOnWithDigit a.rootPrefix.toList a.joinPrefix.toList ∧
    ¬ GoesOnWithDigit a.joinPrefix.toList a.rootPrefix.toList

/-- A prefix that mimics another goes on with a digit after it. -/
theorem Mimics.goesOnWithDigit {start other : List Char} (h : Mimics start other) :
    GoesOnWithDigit start other := by
  obtain ⟨number, rest, ⟨hne, hdigits, hhead⟩, _, rfl⟩ := h
  cases number with
  | nil => exact absurd rfl hne
  | cons c digits =>
    obtain ⟨d, hd, rfl⟩ := exists_digitChar (hdigits c (List.mem_cons_self ..))
    rw [List.head?_cons, Ne, Option.some.injEq, Nat.digitChar_eq_zero] at hhead
    have hvalue := Nat.toNat_digitChar_of_lt_ten hd
    refine ⟨Nat.digitChar d, digits ++ rest, ?_, ?_, by rw [List.append_assoc]; rfl⟩
    · show 49 ≤ (Nat.digitChar d).toNat
      omega
    · show (Nat.digitChar d).toNat ≤ 57
      omega

/-- Separated prefixes are apart, since mimicry takes a digit. -/
theorem Separated.apart {a : AliasIssuer} (h : a.Separated) : a.Apart :=
  ⟨fun hmimics => h.1 hmimics.goesOnWithDigit, fun hmimics => h.2 hmimics.goesOnWithDigit⟩

theorem not_goesOnWithDigit_self (text : List Char) : ¬ GoesOnWithDigit text text := by
  intro ⟨c, rest, _, _, h⟩
  rw [List.self_eq_append_right] at h
  exact nomatch h

/-- One prefix for both roles is separated. -/
theorem separated_of_eq {a : AliasIssuer} (h : a.rootPrefix = a.joinPrefix) : a.Separated := by
  unfold Separated
  rw [h]
  exact ⟨not_goesOnWithDigit_self _, not_goesOnWithDigit_self _⟩

/-- The standard prefixes are separated. -/
theorem separated_standard : standard.Separated := by
  constructor
  · intro ⟨c, rest, _, _, h⟩
    exact absurd (List.cons.inj h).1 (by decide)
  · intro ⟨c, rest, _, _, h⟩
    exact absurd (List.cons.inj h).1 (by decide)

end AliasIssuer

/-! ## The aliases of graphs -/

namespace JoinGraph

theorem Inv.tableAliases_showAt {g : JoinGraph} (h : g.Inv) {i : Nat}
    {columns : List (String × String)} (hshown : (g.showAt i columns).Inv) :
    (g.showAt i columns).tableAliases = g.tableAliases := by
  unfold tableAliases
  rw [hshown.placed_eq, h.placed_eq]
  exact Arena.map_placed_modifyNode g.arena i fun _ _ => rfl

theorem Inv.tableAliases_grown {g : JoinGraph} (h : g.Inv) {parent : Nat} {n : Node}
    {r : Reference} (hgrown : (g.grown parent n r).Inv) :
    (g.grown parent n r).tableAliases = g.tableAliases ++ [n.tableAlias] := by
  unfold tableAliases
  rw [hgrown.placed_eq, h.placed_eq]
  show (g.arena.addNode n).1.placed.map (·.1.tableAlias) = _
  rw [Arena.placed_addNode, List.map_append]
  rfl

theorem Inv.tableAliases_project {g : JoinGraph} (h : g.Inv) (i : Nat) (column output : String) :
    (g.project i column output).graph.tableAliases = g.tableAliases := by
  have hinv := inv_project h i column output
  rcases g.project_cases i column output with ⟨e, hfails⟩ | ⟨n, _, _, hshows⟩
  · rw [hfails]
  · rw [hshows] at hinv ⊢
    exact h.tableAliases_showAt hinv

theorem Inv.tableAliases_projectAll {g : JoinGraph} (h : g.Inv) (i : Nat) :
    (g.projectAll i).graph.tableAliases = g.tableAliases := by
  have hinv := inv_projectAll h i
  rcases g.projectAll_cases i with ⟨e, hfails⟩ | ⟨n, _, hshows⟩
  · rw [hfails]
  · rw [hshows] at hinv ⊢
    exact h.tableAliases_showAt hinv

/-- A join gives the alias that it asks for to its node, or, where it fails, to none. -/
theorem Inv.tableAliases_join {g : JoinGraph} (h : g.Inv) (aliases : AliasIssuer) (parent : Nat)
    (spec : JoinSpec) :
    (g.join aliases parent spec).1.graph.tableAliases = g.tableAliases ∨
    (g.checkJoin parent spec).isOk = true ∧ (g.join aliases parent spec).1.graph.tableAliases =
      g.tableAliases ++ [(aliases.next spec.entity.table .joined).1] := by
  have hinv := inv_join h aliases parent spec
  rcases join_of_inv h aliases parent spec with ⟨e, hjoin⟩ | ⟨p, n, pinned, hp, hn, _, hjoin⟩
  · left
    rw [hjoin]
  · right
    rw [hjoin] at hinv ⊢
    refine ⟨by rw [hp]; rfl, ?_⟩
    rw [h.tableAliases_grown hinv, hn]
    rfl

end JoinGraph

namespace Workshop

/-- The request that a step makes of the issuer, if it makes one: for the root of a graph that is
started, or for the node of a join that was not refused before. -/
def request? (w : Workshop) : BuildStep → Option (String × Role)
  | .start entity => if entity.defect? = none then some (entity.table, .root) else none
  | .project .. => none
  | .projectAll .. => none
  | .join i parent spec =>
    match w.graph? i with
    | none => none
    | some g => if (g.checkJoin parent spec).isOk then some (spec.entity.table, .joined) else none

/-- The requests that the steps of a run make, in order. -/
def requests (w : Workshop) : List BuildStep → List (String × Role)
  | [] => []
  | s :: rest => (w.request? s).toList ++ (w.step s).2.requests rest

/-- The aliases of all nodes of all graphs. -/
def tableAliases (w : Workshop) : List String :=
  w.graphs.flatMap JoinGraph.tableAliases

/-- A step on one graph asks the issuer what it was tried with. -/
theorem aliases_attempt {α : Type} (w : Workshop) (i : Nat)
    (tried : JoinGraph → Attempt α × AliasIssuer) :
    (w.attempt i tried).2.aliases =
      match w.graph? i with
      | none => w.aliases
      | some g => (tried g).2 := by
  unfold attempt
  cases w.graph? i with
  | none => rfl
  | some g => rfl

/-- A step changes the issuer by its request alone. -/
theorem aliases_step (w : Workshop) (s : BuildStep) :
    (w.step s).2.aliases = (w.aliases.issue (w.request? s).toList).2 := by
  cases s with
  | start entity =>
    rcases JoinGraph.start_cases w.aliases entity with ⟨_, hdefect, hstart⟩ | ⟨hdefect, hstart⟩
    · simp only [step, request?, hstart, hdefect]
      rfl
    · simp only [step, request?, hstart, hdefect]
      rfl
  | project i node column output =>
    rw [step, aliases_attempt]
    cases w.graph? i with
    | none => rfl
    | some g => rfl
  | projectAll i node =>
    rw [step, aliases_attempt]
    cases w.graph? i with
    | none => rfl
    | some g => rfl
  | join i parent spec =>
    rw [step, aliases_attempt, request?]
    cases w.graph? i with
    | none => rfl
    | some g =>
      rcases JoinGraph.join_cases g w.aliases parent spec with
        ⟨e, hcheck, hjoin⟩ | ⟨p, hcheck, hjoin⟩
      · simp only [hjoin, hcheck]
        rfl
      · simp only [hjoin, hcheck]
        rfl

/-- The issuer has answered the requests of the run, and no others. -/
theorem aliases_run (w : Workshop) (steps : List BuildStep) :
    (w.run steps).2.aliases = (w.aliases.issue (w.requests steps)).2 := by
  induction steps generalizing w with
  | nil => rfl
  | cons s rest ih =>
    show ((w.step s).2.run rest).2.aliases = _
    rw [ih, aliases_step, requests, AliasIssuer.issue_append]

/-- Where one graph has more aliases than before, the workshop has the same more. -/
theorem perm_flatMap_set {graphs : List JoinGraph} {i : Nat} {g g' : JoinGraph}
    {more : List String} (hg : graphs[i]? = some g)
    (hmore : g'.tableAliases = g.tableAliases ++ more) :
    ((graphs.set i g').flatMap JoinGraph.tableAliases).Perm
      (graphs.flatMap JoinGraph.tableAliases ++ more) := by
  obtain ⟨hi, hget⟩ := List.getElem?_eq_some_iff.mp hg
  obtain ⟨before, after, hgraphs, _, hset⟩ := @List.exists_of_set _ _ g' _ hi
  rw [hget] at hgraphs
  rw [hset, hgraphs]
  simp only [List.flatMap_append, List.flatMap_cons, hmore, List.append_assoc]
  exact ((List.perm_append_comm.append_left _).append_left _)

/-- A step that adds aliases to its graph adds them to those of the workshop. -/
theorem tableAliases_attempt {α : Type} {w : Workshop} {i : Nat}
    {tried : JoinGraph → Attempt α × AliasIssuer} {g : JoinGraph} {more : List String}
    (hg : w.graph? i = some g)
    (hmore : (tried g).1.graph.tableAliases = g.tableAliases ++ more) :
    (w.attempt i tried).2.tableAliases.Perm (w.tableAliases ++ more) := by
  unfold attempt
  rw [hg]
  exact perm_flatMap_set hg hmore

/-- A step on a graph that is not there changes nothing. -/
theorem attempt_of_graph?_eq_none {α : Type} {w : Workshop} {i : Nat}
    {tried : JoinGraph → Attempt α × AliasIssuer} (hg : w.graph? i = none) :
    (w.attempt i tried).2 = w := by
  unfold attempt
  rw [hg]

/-- A step gives the alias it asks for to one new node, or to none. -/
theorem tableAliases_step {w : Workshop} (hw : ∀ g ∈ w.graphs, g.Reachable) (s : BuildStep) :
    ∃ more, more.Sublist (w.aliases.issue (w.request? s).toList).1 ∧
      (w.step s).2.tableAliases.Perm (w.tableAliases ++ more) := by
  have hinv {i : Nat} {g : JoinGraph} (hg : w.graph? i = some g) : g.Inv :=
    (hw g (List.mem_of_getElem? hg)).inv
  have hstay {w' : Workshop} (h : w' = w) : w'.tableAliases.Perm (w.tableAliases ++ []) := by
    rw [h, List.append_nil]
  cases s with
  | start entity =>
    rcases JoinGraph.start_cases w.aliases entity with ⟨_, hdefect, hstart⟩ | ⟨hdefect, hstart⟩
    · refine ⟨[], List.nil_sublist _, hstay ?_⟩
      simp only [step, hstart]
    · refine ⟨_, List.Sublist.refl _, List.Perm.of_eq ?_⟩
      simp only [step, request?, hstart, hdefect, tableAliases, List.flatMap_append]
      rfl
  | project i node column output =>
    refine ⟨[], List.nil_sublist _, ?_⟩
    cases hg : w.graph? i with
    | none => exact hstay (attempt_of_graph?_eq_none hg)
    | some g =>
      refine tableAliases_attempt hg ?_
      rw [List.append_nil]
      exact (hinv hg).tableAliases_project node column output
  | projectAll i node =>
    refine ⟨[], List.nil_sublist _, ?_⟩
    cases hg : w.graph? i with
    | none => exact hstay (attempt_of_graph?_eq_none hg)
    | some g =>
      refine tableAliases_attempt hg ?_
      rw [List.append_nil]
      exact (hinv hg).tableAliases_projectAll node
  | join i parent spec =>
    cases hg : w.graph? i with
    | none => exact ⟨[], List.nil_sublist _, hstay (attempt_of_graph?_eq_none hg)⟩
    | some g =>
      rcases (hinv hg).tableAliases_join w.aliases parent spec with hsame | ⟨hasked, hmore⟩
      · refine ⟨[], List.nil_sublist _, tableAliases_attempt hg ?_⟩
        rw [List.append_nil]
        exact hsame
      · refine ⟨_, ?_, tableAliases_attempt hg hmore⟩
        rw [request?, hg]
        simp only
        rw [if_pos hasked]
        exact List.Sublist.refl _

/-- The aliases of the nodes that a run adds are among those issued in it, each once. -/
theorem tableAliases_run {w : Workshop} (hw : ∀ g ∈ w.graphs, g.Reachable)
    (steps : List BuildStep) :
    ∃ more, more.Sublist (w.aliases.issue (w.requests steps)).1 ∧
      (w.run steps).2.tableAliases.Perm (w.tableAliases ++ more) := by
  induction steps generalizing w with
  | nil => exact ⟨[], List.nil_sublist _, by rw [List.append_nil]; exact List.Perm.refl _⟩
  | cons s rest ih =>
    obtain ⟨more, hmore, hstep⟩ := tableAliases_step hw s
    obtain ⟨others, hothers, hrun⟩ := ih (reachable_step hw s)
    rw [aliases_step] at hothers
    refine ⟨more ++ others, ?_, ?_⟩
    · rw [requests, AliasIssuer.issue_append]
      exact hmore.append hothers
    · rw [← List.append_assoc]
      exact hrun.trans (hstep.append_right others)

end Workshop

/-- An issuer with separated prefixes answers any requests with aliases that are all different, as
issuers with the standard prefixes or with equal ones do. That goes for the requests of any graphs
that are built side by side, also where a join fails after its request; so no two nodes of these
graphs share an alias. -/
theorem AliasIssuer.nodup_of_separated {a : AliasIssuer} (h : a.Separated) :
    (∀ calls, (a.issue calls).1.Nodup) ∧
    (∀ steps, ((Workshop.ofIssuer a).run steps).2.aliases =
        (a.issue ((Workshop.ofIssuer a).requests steps)).2 ∧
      (a.issue ((Workshop.ofIssuer a).requests steps)).1.Nodup ∧
      ((Workshop.ofIssuer a).run steps).2.tableAliases.Nodup ∧
      ∀ tableAlias ∈ ((Workshop.ofIssuer a).run steps).2.tableAliases,
        tableAlias ∈ (a.issue ((Workshop.ofIssuer a).requests steps)).1) ∧
    standard.Separated ∧ ∀ b : AliasIssuer, b.rootPrefix = b.joinPrefix → b.Separated := by
  refine ⟨nodup_issue h.apart, ?_, separated_standard, fun b => separated_of_eq⟩
  intro steps
  have hissued := nodup_issue h.apart ((Workshop.ofIssuer a).requests steps)
  obtain ⟨more, hmore, hperm⟩ := Workshop.tableAliases_run (w := Workshop.ofIssuer a)
    (fun g hg => absurd hg List.not_mem_nil) steps
  refine ⟨Workshop.aliases_run _ steps, hissued, ?_, ?_⟩
  · exact hperm.nodup_iff.mpr (hissued.sublist hmore)
  · exact fun tableAlias htable => hmore.subset (hperm.mem_iff.mp htable)

namespace Warehouse

/-- Two graphs of widgets that grow side by side. The first join fails for want of a column. -/
def steps : List BuildStep :=
  [.start widgets, .start widgets,
    .join 0 0 {
      entity := parts, kind := .left
      restrictions := [⟨.equals, .ofText "nope", .ofText "id"⟩] },
    .join 1 0 { entity := parts, kind := .natural },
    .projectAll 1 1,
    .join 0 0 {
      entity := parts, kind := .left
      restrictions := [⟨.equals, .ofText "id", .ofText "part_id"⟩] }]

/-- An issuer whose second prefix goes on behind the first with a digit, but with a zero. -/
def zeroIssuer : AliasIssuer :=
  .withPrefixes "t" "t0"

/-- The issuer with `t0` and `t` as prefixes is separated, though one of them starts like the
other. -/
theorem separated_zeroIssuer : zeroIssuer.Separated := by
  constructor
  · intro ⟨c, rest, hlow, _, h⟩
    have hc : '0' = c := (List.cons.inj (List.cons.inj h).2).1
    rw [← hc] at hlow
    exact absurd hlow (by decide)
  · intro ⟨c, rest, _, _, h⟩
    exact nomatch (List.cons.inj h).2

/-- Of the five aliases issued here one is left without a node. -/
theorem nodup_steps :
    zeroIssuer.Separated ∧
      ((Workshop.ofIssuer zeroIssuer).run steps).2.tableAliases =
        ["t1_widgets", "t05_parts", "t2_widgets", "t04_parts"] ∧
      ((Workshop.ofIssuer zeroIssuer).run steps).2.tableAliases.Nodup ∧
      (zeroIssuer.issue ((Workshop.ofIssuer zeroIssuer).requests steps)).1.length = 5 := by
  have hdistinct := (AliasIssuer.nodup_of_separated separated_zeroIssuer).2.1 steps
  exact ⟨separated_zeroIssuer, by decide +kernel, hdistinct.2.2.1, by decide +kernel⟩

end Warehouse

end Joinery
