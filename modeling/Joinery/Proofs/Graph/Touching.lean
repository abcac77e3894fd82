import Joinery.Proofs.Graph.Coherence

/-!
# References and the node they join

A restriction of which a side is inferred should speak of the node it joins: the remote
side is moved to that node as soon as the local side is elsewhere, so that the reference
touches it. That works for a remote side without qualifier. A remote side with one goes
where its qualifier says, also when the local side has already fallen back to another node;
then neither side is on the joined node, and the join relates two nodes that were there
before. `outcome_join_touches_iff` says that this is the only way past the joined node, and
`not_forall_join_touches` that there are graphs in which it is taken.

The two sides are found by `JoinGraph.locate` and `JoinGraph.locateRemote`.
-/

namespace Joinery

/-- A side of the restriction is on the node. -/
def PinnedRestriction.Touches (t : PinnedRestriction) (i : Nat) : Prop :=
  t.localSide.node = i ∨ t.remoteSide.node = i

namespace JoinGraph

/-- The local side has no qualifier and the joined node lacks its column, so that it falls back to
another node; and the qualifier of the remote side names another node too. -/
def Strays (g : JoinGraph) (child : PlacedNode) (r : Restriction) : Prop :=
  r.localSide.qualifier = none ∧ child.1.entity.hasColumn r.localSide.column = false ∧
    ∃ qualifier p, r.remoteSide.qualifier = some qualifier ∧
      g.named qualifier r.remoteSide = .ok p ∧ p.2 ≠ child.2

/-- A remote side without qualifier is on the joined node when the local side is not. -/
theorem eq_child_of_locateRemote {g : JoinGraph} {child parent near far : PlacedNode}
    {spec : ColumnSpec} (hq : spec.qualifier = none) (hne : near.2 ≠ child.2)
    (h : g.locateRemote child parent near spec = .ok far) : far = child := by
  unfold locateRemote at h
  rw [if_pos (by rw [hq, Bool.and_eq_true, bne_iff_ne]; exact ⟨rfl, hne⟩)] at h
  exact (locateOn_eq_ok_iff.mp h).1.symm

/-- A remote side with a qualifier is on the node that the qualifier names, wherever the local
side is. -/
theorem named_of_locateRemote {g : JoinGraph} {child parent near far : PlacedNode}
    {spec : ColumnSpec} {qualifier : String} (hq : spec.qualifier = some qualifier)
    (h : g.locateRemote child parent near spec = .ok far) : g.named qualifier spec = .ok far := by
  unfold locateRemote at h
  rw [if_neg (by rw [hq]; simp)] at h
  exact ((locate_eq_ok_of_some hq).mp h).1

/-- A local side without qualifier is on the joined node exactly when that has the column. -/
theorem locate_child_cases {g : JoinGraph} {child near : PlacedNode} {spec : ColumnSpec}
    (hq : spec.qualifier = none) (h : g.locate child spec = .ok near) :
    child.1.entity.hasColumn spec.column = true ∧ near = child ∨
    child.1.entity.hasColumn spec.column = false ∧ near.2 ≠ child.2 := by
  rw [locate_eq_of_none hq] at h
  rcases locateBare_eq_ok_iff.mp h with ⟨hc, rfl⟩ | ⟨hc, hthose⟩
  · exact .inl ⟨hc, rfl⟩
  · have hprop := (of_those_eq_singleton hthose).2
    rw [Bool.and_eq_true, bne_iff_ne] at hprop
    exact .inr ⟨by simpa using hc, hprop.1⟩

/-- A pinned restriction with an inferred side touches the joined node unless it strays. -/
theorem touches_iff_of_pin {g : JoinGraph} {child parent : PlacedNode} {r : Restriction}
    {t : PinnedRestriction} (hinfers : r.infers = true) (h : g.pin child parent r = .ok t) :
    t.localSide.node ≠ t.remoteSide.node ∧ (t.Touches child.2 ↔ ¬ g.Strays child r) := by
  obtain ⟨near, far, hnear, hfar, hself, rfl⟩ := pin_eq_ok_iff.mp h
  have hdiffer : near.2 ≠ far.2 := fun heq => hself ⟨hinfers, heq⟩
  refine ⟨hdiffer, ?_⟩
  show near.2 = child.2 ∨ far.2 = child.2 ↔ ¬ g.Strays child r
  cases hlocal : r.localSide.qualifier with
  | some qualifier =>
    -- the remote side is the inferred one, so it follows the local side
    have hremote : r.remoteSide.qualifier = none := by
      rw [Restriction.infers, hlocal] at hinfers
      simpa using hinfers
    have htouches : near.2 = child.2 ∨ far.2 = child.2 := by
      by_cases hne : near.2 = child.2
      · exact .inl hne
      · exact .inr (by rw [eq_child_of_locateRemote hremote hne hfar])
    have hstays : ¬ g.Strays child r := by
      intro hex
      obtain ⟨hnone, _⟩ := hex
      rw [hlocal] at hnone
      exact absurd hnone (by simp)
    exact iff_of_true htouches hstays
  | none =>
    rcases locate_child_cases hlocal hnear with ⟨hcolumn, rfl⟩ | ⟨hcolumn, hne⟩
    · have hstays : ¬ g.Strays near r := by
        intro hex
        obtain ⟨_, hlacks, _⟩ := hex
        rw [hcolumn] at hlacks
        exact absurd hlacks (by simp)
      exact iff_of_true (.inl rfl) hstays
    · cases hremote : r.remoteSide.qualifier with
      | none =>
        have hstays : ¬ g.Strays child r := by
          intro hex
          obtain ⟨_, _, qualifier, p, hsome, _⟩ := hex
          rw [hremote] at hsome
          exact absurd hsome (by simp)
        exact iff_of_true (.inr (by rw [eq_child_of_locateRemote hremote hne hfar])) hstays
      | some qualifier =>
        have hnamed := named_of_locateRemote hremote hfar
        constructor
        · intro htouches hstrays
          obtain ⟨_, _, other, p, hsome, hp, haway⟩ := hstrays
          rcases htouches with hnear' | hfar'
          · exact hne hnear'
          · rw [hremote, Option.some.injEq] at hsome
            rw [← hsome, hnamed] at hp
            rw [← Except.ok.inj hp] at haway
            exact haway hfar'
        · intro hstays
          right
          by_cases haway : far.2 = child.2
          · exact haway
          · exact absurd ⟨hlocal, hcolumn, qualifier, far, hremote, hnamed, haway⟩ hstays

/-- A join pins each of its restrictions that has an inferred side to two different nodes, and one
of them is the joined node unless the restriction strays. -/
theorem outcome_join_touches_iff {g : JoinGraph} (h : g.Reachable) {aliases : AliasIssuer}
    {parent i : Nat} {spec : JoinSpec}
    (hok : (g.join aliases parent spec).1.outcome = .ok i) :
    ∃ n l, n = spec.toNode (aliases.next spec.entity.table .joined).1 ∧
      (g.join aliases parent spec).1.graph.incoming? i = some l ∧
      l.child = i ∧ l.reference.declared = spec.restrictions ∧
      l.reference.pinned.length = spec.restrictions.length ∧
      ∀ p ∈ spec.restrictions.zip l.reference.pinned, p.1.infers = true →
        p.2.localSide.node ≠ p.2.remoteSide.node ∧
        (p.2.Touches i ↔ ¬ (g.pending n).1.Strays (n, i) p.1) := by
  have hinv := (Reachable.join aliases parent spec h).inv
  rcases join_of_inv h.inv aliases parent spec with
    ⟨e, hjoin⟩ | ⟨p, n, pinned, hp, hn, hpinned, hjoin⟩
  · rw [hjoin] at hok
    exact absurd hok (by simp)
  · rw [hjoin] at hok hinv ⊢
    have hi : i = g.size := (Except.ok.inj hok).symm
    obtain ⟨hposition, hpos, _⟩ := checkJoin_eq_ok_iff.mp hp
    rw [← hpos] at hposition
    refine ⟨n, _, hn, by rw [hi]; exact h.inv.incoming?_grown hposition hinv, hi.symm, rfl,
      (length_eq_of_map_eq_map_ok hpinned).symm, ?_⟩
    intro q hq hinfers
    have hpin := eq_ok_of_mem_zip hpinned q hq
    rw [hi]
    exact touches_iff_of_pin hinfers hpin

end JoinGraph

namespace Warehouse

/-- Notes under the parts, with one restriction that strays to the widgets and their parts, and one
that does not. -/
def notes : JoinSpec :=
  { entity := labels, kind := .inner, relation := some "notes"
    restrictions := [⟨.equals, .ofText "name", .ofText "parts.detail"⟩,
      ⟨.equals, .ofText "part", .ofText "id"⟩] }

/-- One restriction of the notes touches them, the other relates widgets to parts. -/
theorem join_notes :
    graph.Reachable ∧ (graph.join .standard 1 notes).1.outcome = .ok 3 ∧
      ∃ n l, n = notes.toNode (AliasIssuer.standard.next "labels" .joined).1 ∧
        (graph.join .standard 1 notes).1.graph.incoming? 3 = some l ∧ l.child = 3 ∧
        l.reference.declared = notes.restrictions ∧
        l.reference.pinned.length = notes.restrictions.length ∧
        ∀ p ∈ notes.restrictions.zip l.reference.pinned, p.1.infers = true →
          p.2.localSide.node ≠ p.2.remoteSide.node ∧
          (p.2.Touches 3 ↔ ¬ (graph.pending n).1.Strays (n, 3) p.1) :=
  ⟨reachable_graph, by decide +kernel,
    JoinGraph.outcome_join_touches_iff reachable_graph (by decide +kernel)⟩

/-- Not every reference touches the node it joins: the notes relate widgets to parts. -/
theorem not_forall_join_touches :
    ¬ ∀ g : JoinGraph, g.Reachable → ∀ (aliases : AliasIssuer) (parent i : Nat) (spec : JoinSpec)
      (l : Link), (g.join aliases parent spec).1.outcome = .ok i →
      (g.join aliases parent spec).1.graph.incoming? i = some l →
      ∀ p ∈ spec.restrictions.zip l.reference.pinned, p.1.infers = true → p.2.Touches i := by
  intro h
  have hpinned : ((graph.join .standard 1 notes).1.graph.incoming? 3).map (·.reference.pinned) =
      some [⟨.equals, ⟨0, "name"⟩, ⟨1, "detail"⟩⟩, ⟨.equals, ⟨3, "part"⟩, ⟨1, "id"⟩⟩] := by
    decide +kernel
  obtain ⟨l, hl, hp⟩ := Option.map_eq_some_iff.mp hpinned
  have hzip : (⟨.equals, .ofText "name", .ofText "parts.detail"⟩,
      ⟨.equals, ⟨0, "name"⟩, ⟨1, "detail"⟩⟩) ∈ notes.restrictions.zip l.reference.pinned := by
    rw [hp]
    exact List.mem_cons_self ..
  rcases h graph reachable_graph .standard 1 3 notes l (by decide +kernel) hl _ hzip
    (by decide +kernel) with hlocal | hremote
  · exact absurd hlocal (by decide)
  · exact absurd hremote (by decide)

end Warehouse

end Joinery
