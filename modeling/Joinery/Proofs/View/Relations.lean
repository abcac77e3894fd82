import Joinery.Proofs.View.Loading

/-!
# The relations of a view

Every reference of a graph comes with two names, and a view has them all or is not created. The
relations of a view are the names that its references come with, each for its reference
(`get?_accessorsOf_iff`), and a graph has a view exactly if no two of those names are the same
(`accessorsOf_isOk_iff`). Relation names differ among themselves, and aliases should, so what is
left is that a relation name is the alias of a joined node, perhaps of the same one
(`Inv.accessorsOf_isOk_iff_namesApart`).

The relations are made by `View.accessorsOf`, on which `View.create` rests.
-/

namespace Joinery

/-- Pairs written one after another are the first members and the second, in another order. -/
theorem perm_flatMap_pair {α β : Type} (first second : α → β) (l : List α) :
    (l.flatMap fun a => [first a, second a]).Perm (l.map first ++ l.map second) := by
  induction l with
  | nil => exact List.Perm.refl _
  | cons a rest ih =>
    show (first a :: second a :: _).Perm (first a :: (rest.map first ++ second a :: rest.map second))
    exact (ih.cons _ |>.trans List.perm_middle.symm).cons _

namespace View

/-- An accessor is added exactly if its name is free. -/
theorem addAccessor_eq_ok_iff {known next : Registry Accessor} {entry : String × Accessor} :
    addAccessor known entry = .ok next ↔
      known.holds entry.1 = false ∧ next = known.claim entry.1 entry.2 := by
  unfold addAccessor
  split
  next hholds =>
    rw [hholds]
    exact iff_of_false (fun h => nomatch h) (fun h => nomatch h.1)
  next hfree =>
    rw [Bool.not_eq_true] at hfree
    rw [Except.ok.injEq, and_iff_right hfree, eq_comm]

/-- A name that was free has the accessor that it is claimed for; the others stay as they are. -/
theorem get?_claim_of_free {known : Registry Accessor} (h : known.Sorted) {name : String}
    (hfree : known.holds name = false) (a : Accessor) (other : String) :
    (known.claim name a).get? other = if other = name then some a else known.get? other := by
  rw [Registry.get?_claim h, Option.isNone_iff_eq_none.mp (Option.isSome_eq_false_iff.mp hfree)]
  rfl

/-- What is known stays known, and every entry is added. -/
theorem get?_of_foldlM_addAccessor {entries : List (String × Accessor)}
    {known relations : Registry Accessor} (hknown : known.Sorted)
    (h : entries.foldlM addAccessor known = .ok relations) {name : String} {a : Accessor}
    (ha : known.get? name = some a ∨ (name, a) ∈ entries) : relations.get? name = some a := by
  induction entries generalizing known with
  | nil =>
    rw [← Except.ok.inj h]
    exact ha.resolve_right List.not_mem_nil
  | cons entry entries ih =>
    rw [List.foldlM_cons, bind_eq_ok_iff] at h
    obtain ⟨next, hadd, hrest⟩ := h
    obtain ⟨hfree, rfl⟩ := addAccessor_eq_ok_iff.mp hadd
    refine ih (hknown.claim _ _) hrest ?_
    rw [get?_claim_of_free hknown hfree]
    rw [List.mem_cons] at ha
    rcases ha with hget | rfl | hmem
    · have hne : name ≠ entry.1 := by
        intro heq
        rw [← heq, Registry.holds, hget] at hfree
        cases hfree
      rw [if_neg hne]
      exact .inl hget
    · rw [if_pos rfl]
      exact .inl rfl
    · exact .inr hmem

/-- A name is still free after a claim if it was before and is another one. -/
theorem holds_claim_eq_false_iff {known : Registry Accessor} (h : known.Sorted) {name : String}
    (hfree : known.holds name = false) (a : Accessor) (other : String) :
    (known.claim name a).holds other = false ↔ other ≠ name ∧ known.holds other = false := by
  rw [Registry.holds, get?_claim_of_free h hfree]
  by_cases heq : other = name
  · simp [heq]
  · rw [if_neg heq]
    exact (and_iff_right heq).symm

/-- Accessors can be added as long as their names are free and differ. -/
theorem foldlM_addAccessor_isOk_iff {entries : List (String × Accessor)}
    {known : Registry Accessor} (hknown : known.Sorted) :
    (entries.foldlM addAccessor known).isOk = true ↔
      (entries.map (·.1)).Nodup ∧ ∀ entry ∈ entries, known.holds entry.1 = false := by
  induction entries generalizing known with
  | nil => simp [pure, Except.pure, Except.isOk, Except.toBool]
  | cons entry entries ih =>
    rw [List.foldlM_cons, List.map_cons, List.nodup_cons, List.forall_mem_cons]
    cases hfree : known.holds entry.1 with
    | true =>
      have hadd : addAccessor known entry = .error (.duplicateRelation entry.1) := if_pos hfree
      rw [hadd]
      simp [bind, Except.bind, Except.isOk, Except.toBool]
    | false =>
      have hadd : addAccessor known entry = .ok (known.claim entry.1 entry.2) :=
        addAccessor_eq_ok_iff.mpr ⟨hfree, rfl⟩
      rw [hadd]
      refine (ih (hknown.claim _ _)).trans ?_
      simp only [holds_claim_eq_false_iff hknown hfree, forall_and, List.mem_map, not_exists,
        not_and, true_and]
      constructor
      · rintro ⟨hnodup, hne, hrest⟩
        exact ⟨⟨hne, hnodup⟩, hrest⟩
      · rintro ⟨⟨hne, hnodup⟩, hrest⟩
        exact ⟨hnodup, hne, hrest⟩

/-- What cannot be added is the first entry under a name that is taken, there or by an entry
before it. -/
theorem foldlM_addAccessor_eq_error {entries : List (String × Accessor)}
    {known : Registry Accessor} (hknown : known.Sorted) {e : DeclarationError}
    (h : entries.foldlM addAccessor known = .error e) :
    ∃ (before : List (String × Accessor)) (entry : String × Accessor)
        (after : List (String × Accessor)),
      entries = before ++ entry :: after ∧ e = .duplicateRelation entry.1 ∧
      (known.holds entry.1 = true ∨ entry.1 ∈ before.map (·.1)) := by
  induction entries generalizing known with
  | nil => exact nomatch h
  | cons entry entries ih =>
    rw [List.foldlM_cons] at h
    cases hfree : known.holds entry.1 with
    | true =>
      have hadd : addAccessor known entry = .error (.duplicateRelation entry.1) := if_pos hfree
      rw [hadd] at h
      exact ⟨[], entry, entries, rfl, (Except.error.inj h).symm, .inl hfree⟩
    | false =>
      have hadd : addAccessor known entry = .ok (known.claim entry.1 entry.2) :=
        addAccessor_eq_ok_iff.mpr ⟨hfree, rfl⟩
      rw [hadd] at h
      obtain ⟨before, later, after, rfl, he, htaken⟩ := ih (hknown.claim _ _) h
      refine ⟨entry :: before, later, after, rfl, he, ?_⟩
      rw [List.map_cons, List.mem_cons]
      by_cases hname : later.1 = entry.1
      · exact .inr (.inl hname)
      · refine htaken.imp (fun hheld => ?_) .inr
        by_contra hnot
        rw [Bool.not_eq_true] at hnot
        rw [(holds_claim_eq_false_iff hknown hfree _ _).mpr ⟨hname, hnot⟩] at hheld
        exact nomatch hheld

/-- A graph has accessors exactly if no two of their names are the same. -/
theorem accessorsOf_isOk_iff (g : JoinGraph) :
    (accessorsOf g).isOk = true ↔ ((g.links.flatMap accessNames).map (·.1)).Nodup := by
  rw [accessorsOf, foldlM_addAccessor_isOk_iff Registry.sorted_empty]
  exact and_iff_left fun _ _ => rfl

/-- The relations of a graph are the names that its references come with. -/
theorem get?_accessorsOf_iff {g : JoinGraph} {relations : Registry Accessor}
    (h : accessorsOf g = .ok relations) {name : String} {a : Accessor} :
    relations.get? name = some a ↔ (name, a) ∈ g.links.flatMap accessNames := by
  constructor
  · intro ha
    rcases mem_of_foldlM_addAccessor Registry.sorted_empty h ha with hnone | hmem
    · exact nomatch hnone
    · exact hmem
  · exact fun ha => get?_of_foldlM_addAccessor Registry.sorted_empty h (.inr ha)

/-- Both names of what a reference joins lead to the reference. -/
theorem get?_of_link {g : JoinGraph} {relations : Registry Accessor}
    (h : accessorsOf g = .ok relations) {l : Link} (hl : l ∈ g.links) :
    relations.get? l.childNode.relation = some (.ofLink l) ∧
      relations.get? l.childNode.tableAlias = some (.ofLink l) := by
  rw [get?_accessorsOf_iff h, get?_accessorsOf_iff h]
  exact ⟨List.mem_flatMap.mpr ⟨l, hl, List.mem_cons_self ..⟩,
    List.mem_flatMap.mpr ⟨l, hl, List.mem_cons_of_mem _ (List.mem_cons_self ..)⟩⟩

/-- Where the names of a graph differ, only the name of the view can be wrong. -/
theorem create_of_accessors {g : JoinGraph} {relations : Registry Accessor}
    (h : accessorsOf g = .ok relations) (name : String) :
    create name g = if Text.allBlank name then .error (.invalidEntity name .blankViewName)
      else .ok ⟨name, g, {}, relations⟩ := by
  unfold create
  rw [h]
  cases Text.allBlank name with
  | false => rfl
  | true => rfl

/-- The relations of a view are the accessors of its graph. -/
theorem Created.accessorsOf {v : View} (hv : v.Created) :
    View.accessorsOf v.graph = .ok v.relations := by
  obtain ⟨first, c, hfirst, heq⟩ := hv
  obtain ⟨_, relations, haccessors, rfl⟩ := create_eq_ok_iff.mp hfirst
  rw [heq]
  exact haccessors

/-- Making a view under a good name fails only for want of a name for an accessor. -/
theorem create_eq_error_iff {name : String} (hname : Text.allBlank name = false) {g : JoinGraph}
    {e : DeclarationError} : create name g = .error e ↔ accessorsOf g = .error e := by
  unfold create
  rw [hname]
  cases accessorsOf g with
  | error d =>
    show Except.error d = Except.error e ↔ _
    rw [Except.error.injEq, Except.error.injEq]
  | ok relations => exact iff_of_false (fun h => nomatch h) (fun h => nomatch h)

end View

/-! ## Names that meet -/

namespace JoinGraph

/-- No joined node goes by the alias of a joined node as its relation name. -/
def NamesApart (g : JoinGraph) : Prop :=
  ∀ p ∈ g.joined, ∀ q ∈ g.joined, p.1.relation ≠ q.1.tableAlias

instance (g : JoinGraph) : Decidable g.NamesApart :=
  inferInstanceAs (Decidable (∀ p ∈ g.joined, ∀ q ∈ g.joined, p.1.relation ≠ q.1.tableAlias))

/-- Together the references come with the relation names and the aliases of the joined nodes. -/
theorem accessNames_perm (g : JoinGraph) :
    ((g.links.flatMap View.accessNames).map (·.1)).Perm
      (g.joined.map (·.1.relation) ++ g.joined.map (·.1.tableAlias)) := by
  rw [List.map_flatMap, joined, List.map_map, List.map_map]
  exact perm_flatMap_pair (fun l => l.childNode.relation) (fun l => l.childNode.tableAlias) g.links

/-- With distinct aliases, accessors fail exactly if a relation is a joined node's alias. -/
theorem Inv.accessorsOf_isOk_iff_namesApart {g : JoinGraph} (h : g.Inv) (hd : g.DistinctAliases) :
    (View.accessorsOf g).isOk = true ↔ g.NamesApart := by
  have hjoined : (g.joined.map (·.1.tableAlias)).Nodup := (List.nodup_cons.mp hd).2
  rw [View.accessorsOf_isOk_iff, g.accessNames_perm.nodup_iff, List.nodup_append,
    and_iff_right h.nodup_relations, and_iff_right hjoined]
  constructor
  · exact fun hne p hp q hq => hne _ (List.mem_map_of_mem hp) _ (List.mem_map_of_mem hq)
  · rintro hapart _ hname _ hother
    obtain ⟨p, hp, rfl⟩ := List.mem_map.mp hname
    obtain ⟨q, hq, rfl⟩ := List.mem_map.mp hother
    exact hapart p hp q hq

/-- Where a graph has no view, the name that is to blame is a relation name and an alias. -/
theorem Inv.exists_of_accessorsOf_eq_error {g : JoinGraph} (h : g.Inv) (hd : g.DistinctAliases)
    {e : DeclarationError} (he : View.accessorsOf g = .error e) :
    ∃ p ∈ g.joined, ∃ q ∈ g.joined, p.1.relation = q.1.tableAlias ∧
      e = .duplicateRelation p.1.relation := by
  obtain ⟨before, entry, after, heq, rfl, htaken⟩ :=
    View.foldlM_addAccessor_eq_error Registry.sorted_empty he
  have hbefore : entry.1 ∈ before.map (·.1) := htaken.resolve_left fun hheld => nomatch hheld
  have hjoined : (g.joined.map (·.1.tableAlias)).Nodup := (List.nodup_cons.mp hd).2
  -- twice among relation names and aliases, and at most once among either
  have htwice := g.accessNames_perm.count_eq entry.1
  rw [heq, List.map_append, List.map_cons, List.count_append, List.count_cons_self,
    List.count_append] at htwice
  have hcount := List.count_pos_iff.mpr hbefore
  have hrelation := List.nodup_iff_count_le_one.mp h.nodup_relations entry.1
  have halias := List.nodup_iff_count_le_one.mp hjoined entry.1
  have hmemRelation : entry.1 ∈ g.joined.map (·.1.relation) := List.count_pos_iff.mp (by omega)
  have hmemAlias : entry.1 ∈ g.joined.map (·.1.tableAlias) := List.count_pos_iff.mp (by omega)
  obtain ⟨p, hp, hpname⟩ := List.mem_map.mp hmemRelation
  obtain ⟨q, hq, hqname⟩ := List.mem_map.mp hmemAlias
  exact ⟨p, hp, q, hq, hpname.trans hqname.symm, by rw [hpname]⟩

end JoinGraph

end Joinery
