import Joinery.Graph.Basic
import Joinery.Registry

/-!
# The key of a join graph

Which columns identify a row of a join graph is read off its references. A natural join
contributes the columns its child shares with the parent, any other the local columns of
its restrictions. The first reference to contribute a name gets it, and the names ascend.
A graph of a root alone has the root's own primary key, exactly as declared.

`key` is what the primary key's `resolve` comes to.
-/

namespace Joinery

/-- A column of a key, with where it comes from. -/
structure KeyColumn where
  name : String
  -- the position of the node that has the column
  owner : Nat
  -- the position of the reference that contributed it; none for a root alone
  reference : Option Nat
  deriving DecidableEq, Repr

namespace Link

/-- The columns of the child that the parent has too, in the child's order. -/
def shared (l : Link) : List String :=
  l.childNode.entity.columns.filter l.parentNode.entity.hasColumn

/-- Child and parent share the columns that both of them have. -/
theorem mem_shared {l : Link} {name : String} :
    name ∈ l.shared ↔
      l.childNode.entity.hasColumn name ∧ l.parentNode.entity.hasColumn name := by
  simp [shared, Entity.hasColumn]

/-- The columns that a reference contributes to the key, in order. -/
def keyColumns (l : Link) : List KeyColumn :=
  if l.childNode.kind = .natural then
    l.shared.map fun name => ⟨name, l.child, some l.edge⟩
  else
    l.reference.pinned.map fun r => ⟨r.localSide.column, r.localSide.node, some l.edge⟩

end Link

namespace JoinGraph

/-- The key of a root alone: its primary key, in the declared order. -/
def rootKey (g : JoinGraph) : List KeyColumn :=
  g.rootNode.entity.primaryKey.map fun name => ⟨name, g.root, none⟩

/-- The key of a graph with references, by name. -/
def referenceKey (g : JoinGraph) : Registry KeyColumn :=
  Registry.ofList ((g.links.flatMap Link.keyColumns).map fun k => (k.name, k))

/-- The columns that identify a row. -/
def key (g : JoinGraph) : List KeyColumn :=
  if g.references.isEmpty then g.rootKey else g.referenceKey.values

/-- The names of the key's columns, in the order of the key. -/
def keyNames (g : JoinGraph) : List String :=
  g.key.map (·.name)

/-- What a reference contributes refers back to it. -/
theorem reference_of_mem_keyColumns {l : Link} {k : KeyColumn} (hk : k ∈ l.keyColumns) :
    k.reference = some l.edge := by
  unfold Link.keyColumns at hk
  split at hk
  next =>
    obtain ⟨_, _, rfl⟩ := List.mem_map.mp hk
    rfl
  next =>
    obtain ⟨_, _, rfl⟩ := List.mem_map.mp hk
    rfl

/-- With references the key has for each name the first column that one of them contributes. -/
theorem mem_key_iff {g : JoinGraph} (h : g.references ≠ []) {k : KeyColumn} :
    k ∈ g.key ↔ (g.links.flatMap Link.keyColumns).find? (·.name == k.name) = some k := by
  rw [key, List.isEmpty_eq_false_iff.mpr h, if_neg Bool.false_ne_true]
  exact Registry.mem_values_ofList_map

/-- With references the names of the key are those they contribute, in ascending order. -/
theorem keyNames_eq {g : JoinGraph} (h : g.references ≠ []) :
    g.keyNames = g.referenceKey.names := by
  rw [keyNames, key, List.isEmpty_eq_false_iff.mpr h, if_neg Bool.false_ne_true, referenceKey,
    Registry.names_ofList_map]

/-- The names of the key are all that references contribute. -/
theorem mem_keyNames_iff {g : JoinGraph} (h : g.references ≠ []) {name : String} :
    name ∈ g.keyNames ↔ ∃ l ∈ g.links, ∃ k ∈ l.keyColumns, k.name = name := by
  rw [keyNames_eq h, Registry.mem_names_iff, referenceKey, Registry.get?_ofList_map,
    List.find?_isSome]
  simp only [List.mem_flatMap, beq_iff_eq]
  constructor
  · rintro ⟨k, ⟨l, hl, hk⟩, hname⟩
    exact ⟨l, hl, k, hk, hname⟩
  · rintro ⟨l, hl, k, hk, hname⟩
    exact ⟨k, ⟨l, hl, hk⟩, hname⟩

/-- A column of the key is one of the root's, if there are no references, or the first of its name. -/
theorem mem_key_cases {g : JoinGraph} {k : KeyColumn} (hk : k ∈ g.key) :
    (g.references = [] ∧ ∃ name ∈ g.rootNode.entity.primaryKey, k = ⟨name, g.root, none⟩) ∨
      (g.references ≠ [] ∧
        (g.links.flatMap Link.keyColumns).find? (·.name == k.name) = some k) := by
  by_cases h : g.references = []
  · rw [key, List.isEmpty_iff.mpr h, if_pos rfl] at hk
    obtain ⟨name, hname, rfl⟩ := List.mem_map.mp hk
    exact .inl ⟨h, name, hname, rfl⟩
  · exact .inr ⟨h, (mem_key_iff h).mp hk⟩

end JoinGraph

end Joinery
