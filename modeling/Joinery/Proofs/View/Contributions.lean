import Joinery.Proofs.View.NaturalJoins

/-!
# Where the columns of a key come from

References contribute names to the key of their graph, a natural one the names that the joined node
shares with its parent and any other the local columns of its restrictions, whatever these compare
by. `Link.Contributes` says which names, and `Link.Credits` which node a name would belong to if the
reference were the first to contribute it. Both are read off the reference alone; that the columns
which it has for the key are these is `find?_keyColumns_eq_some_iff`.

A name goes to the first reference that contributes it. So the names of a key are a union over the
references, and each of its columns leads back to the first one of them (`Inv.keyedByReferences`).
A view reaches the node of a natural reference through the same names (`accessor`). Without
references the key is the root's own.

The key is `JoinGraph.key`.
-/

namespace Joinery

namespace Link

/-- The reference has the name for the key. -/
def Contributes (l : Link) (name : String) : Prop :=
  if l.childNode.kind = .natural then
    l.childNode.entity.hasColumn name = true ∧ l.parentNode.entity.hasColumn name = true
  else ∃ t ∈ l.reference.pinned, t.localSide.column = name

/-- The node to which a name of the reference belongs: the joined one, or the one that has the local
side of the first restriction with that name. -/
def Credits (l : Link) (name : String) (owner : Nat) : Prop :=
  if l.childNode.kind = .natural then owner = l.child
  else ∃ t, t.localSide = ⟨owner, name⟩ ∧
    Registry.IsFirst (·.localSide.column) l.reference.pinned t

/-- A reference contributes the names of the columns it gives to the key. -/
theorem contributes_iff_exists {l : Link} {name : String} :
    l.Contributes name ↔ ∃ k ∈ l.keyColumns, k.name = name := by
  rw [← List.mem_map]
  unfold Contributes keyColumns
  split
  next =>
    rw [List.map_map, ← mem_shared]
    exact (congrArg (name ∈ ·) (List.map_id l.shared)).to_iff.symm
  next =>
    rw [List.map_map, List.mem_map]
    rfl

/-- A name that is not found in what a reference gives is not contributed by it. -/
theorem find?_keyColumns_eq_none_iff {l : Link} {name : String} :
    l.keyColumns.find? (·.name == name) = none ↔ ¬ l.Contributes name := by
  rw [contributes_iff_exists, List.find?_eq_none]
  simp only [beq_iff_eq, not_exists, not_and]

/-- What a reference has for the key under a name is the column that it credits the name to. -/
theorem find?_keyColumns_eq_some_iff {l : Link} {name : String} {k : KeyColumn} :
    l.keyColumns.find? (·.name == name) = some k ↔
      k.name = name ∧ k.reference = some l.edge ∧ l.Contributes name ∧ l.Credits name k.owner := by
  unfold Contributes Credits keyColumns
  split
  next =>
    rw [List.find?_map, Option.map_eq_some_iff, ← mem_shared]
    constructor
    · rintro ⟨column, hfind, rfl⟩
      obtain ⟨hmem, rfl⟩ := find?_beq_eq_some_iff.mp hfind
      exact ⟨rfl, rfl, hmem, rfl⟩
    · rintro ⟨rfl, hreference, hmem, howner⟩
      refine ⟨k.name, find?_beq_eq_some_iff.mpr ⟨hmem, rfl⟩, ?_⟩
      rw [← howner, ← hreference]
  next =>
    rw [List.find?_map, Option.map_eq_some_iff]
    constructor
    · rintro ⟨t, hfind, rfl⟩
      obtain ⟨rfl, hfirst⟩ := Registry.find?_eq_some_iff_isFirst.mp hfind
      exact ⟨rfl, rfl, ⟨t, List.mem_of_find?_eq_some hfind, rfl⟩, t, rfl, hfirst⟩
    · rintro ⟨rfl, hreference, _, t, ht, hfirst⟩
      have hcolumn : t.localSide.column = k.name := by rw [ht]
      have howner : t.localSide.node = k.owner := by rw [ht]
      refine ⟨t, Registry.find?_eq_some_iff_isFirst.mpr ⟨hcolumn, hfirst⟩, ?_⟩
      rw [hcolumn, howner, ← hreference]

end Link

namespace JoinGraph

/-- What the key of a graph with references is made of. -/
structure KeyedByReferences (g : JoinGraph) : Prop where
  ascending : g.keyNames.Pairwise (· < ·)
  -- the names are those that references contribute
  names : ∀ name, name ∈ g.keyNames ↔ ∃ l ∈ g.links, l.Contributes name
  -- a column comes from the first reference that contributes its name, and has the owner that this
  -- reference credits it to
  sources : ∀ k ∈ g.key, ∃ before l after, g.links = before ++ l :: after ∧
    k.reference = some l.edge ∧ l.Contributes k.name ∧ (∀ m ∈ before, ¬ m.Contributes k.name) ∧
    l.Credits k.name k.owner
  -- what other than natural references contribute are the local columns they were declared with
  declared : ∀ l ∈ g.links, l.childNode.kind ≠ .natural → ∀ name,
    l.Contributes name ↔ ∃ r ∈ l.reference.declared, r.localSide.column = name
  -- what a natural reference contributes, views reach its node through
  accessor : ∀ v : View, v.graph = g → v.Created → ∀ l ∈ g.links, l.childNode.kind = .natural →
    ∀ name ∈ [l.childNode.relation, l.childNode.tableAlias], ∃ shared,
      v.relations.get? name = some (.natural l.edge l.child shared) ∧
      ∀ column, column ∈ shared ↔ l.Contributes column

/-- The first column of a name is the one that the first reference with that name has. -/
theorem exists_first_of_mem_key {g : JoinGraph} (h : g.references ≠ []) {k : KeyColumn}
    (hk : k ∈ g.key) :
    ∃ before l after, g.links = before ++ l :: after ∧ k.reference = some l.edge ∧
      l.Contributes k.name ∧ (∀ m ∈ before, ¬ m.Contributes k.name) ∧ l.Credits k.name k.owner := by
  have hfind := (mem_key_iff h).mp hk
  rw [List.find?_flatMap, List.findSome?_eq_some_iff] at hfind
  obtain ⟨before, l, after, heq, hfirst, hbefore⟩ := hfind
  obtain ⟨_, hreference, hcontributes, howner⟩ := Link.find?_keyColumns_eq_some_iff.mp hfirst
  exact ⟨before, l, after, heq, hreference, hcontributes,
    fun m hm => Link.find?_keyColumns_eq_none_iff.mp (hbefore m hm), howner⟩

/-- A pinned restriction has the local column that it was declared with. -/
theorem LinkAt.contributes_iff {g : JoinGraph} {e : Nat} {l : Link} (h : g.LinkAt e l)
    (hkind : l.childNode.kind ≠ .natural) {name : String} :
    l.Contributes name ↔ ∃ r ∈ l.reference.declared, r.localSide.column = name := by
  have hmap : l.reference.pinned.map (·.localSide.column) =
      l.reference.declared.map (·.localSide.column) := by
    rw [← List.forall₂_eq_eq_eq, List.forall₂_map_left_iff, List.forall₂_map_right_iff]
    exact (h.pinnedAs.imp fun _ _ hp => hp.localColumn).flip
  have hmem := congrArg (name ∈ ·) hmap
  simp only [List.mem_map] at hmem
  rw [Link.Contributes, if_neg hkind, hmem]

/-- With references a graph is keyed by them. -/
theorem Inv.keyedByReferences {g : JoinGraph} (h : g.Inv) (hne : g.references ≠ []) :
    g.KeyedByReferences where
  ascending := by
    rw [keyNames_eq hne, Registry.names, List.pairwise_map]
    exact Registry.sorted_ofList _
  names := by
    intro name
    simp only [mem_keyNames_iff hne, Link.contributes_iff_exists]
  sources := fun _ hk => exists_first_of_mem_key hne hk
  declared := fun _ hl hkind _ => (h.linkAt (h.mem_links.mp hl)).contributes_iff hkind
  accessor := by
    intro v hv hcreated l hl hkind name hname
    have hreached := (h.readsNaturally hl hkind).reached v hv hcreated name hname
    refine ⟨l.shared, hreached, fun column => ?_⟩
    rw [Link.Contributes, if_pos hkind, Link.mem_shared]

/-- The key of a graph with references is made of what these contribute, and that of a root alone is
the root's. In either case the owner of a column has it. -/
theorem keyedByReferences_of_reachable {g : JoinGraph} (h : g.Reachable) :
    (g.references ≠ [] → g.KeyedByReferences) ∧
      (g.references = [] →
        g.key = g.rootNode.entity.primaryKey.map fun name => ⟨name, g.root, none⟩) ∧
      ∀ k ∈ g.key, ∃ n, g.node? k.owner = some n ∧ n.entity.hasColumn k.name = true := by
  refine ⟨h.inv.keyedByReferences, ?_, fun k hk => h.inv.owner_of_mem_key hk⟩
  intro hnil
  rw [key, List.isEmpty_iff.mpr hnil, if_pos rfl, rootKey]

end JoinGraph

namespace Warehouse

/-- Three references contribute the id, and the column of the key is that of the first. -/
theorem keyedByReferences_remarked :
    remarked.Reachable ∧ remarked.references ≠ [] ∧ remarked.KeyedByReferences ∧
      remarked.key = [⟨"id", 1, some 0⟩, ⟨"name", 1, some 0⟩] := by
  have hne : remarked.references ≠ [] := by decide +kernel
  exact ⟨reachable_remarked, hne,
    (JoinGraph.keyedByReferences_of_reachable reachable_remarked).1 hne, by decide +kernel⟩

end Warehouse

end Joinery
