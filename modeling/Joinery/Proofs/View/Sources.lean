import Joinery.Proofs.Graph.Views
import Joinery.View.Load
import Mathlib.Data.List.Find

/-!
# Where the fields of a related record come from

The record behind a reference is identified by columns of the target: those that an equality of
the reference compares with a column elsewhere or, of a natural reference, those that target and
parent share; and by the target's own key (`Link.Identifies`). For each such field there is one
seed that counts (`Link.FirstSeed`), and it says which columns the value may be read from
(`Link.Draws`). These are read off the reference, its restrictions and the columns of its two ends.

`find?_seedsOf_eq_some_iff` says that the seeds of `View.load` are these: of those that it lists for
a field the first is the one that counts. In the row the value stands under the first output of the
view that is taken from the column (`View.FirstOutput`, `View.Reads`).
-/

namespace Joinery

/-! ## The columns that identify a record -/

namespace PinnedRestriction

/-- The restriction is an equality between a column of the target and the opposite column. Where
both its sides are on the target, the remote one is opposite. -/
def Equates (r : PinnedRestriction) (target : Nat) (column : String) (opposite : PinnedColumn) :
    Prop :=
  r.comparison = .equals ∧
    (r.localSide = ⟨target, column⟩ ∧ r.remoteSide = opposite ∨
      r.localSide.node ≠ target ∧ r.remoteSide = ⟨target, column⟩ ∧ r.localSide = opposite)

/-- The column of the target that the restriction equates with another, if it does so at all. -/
def equated? (r : PinnedRestriction) (target : Nat) : Option String :=
  if r.comparison = .equals then
    if r.localSide.node = target then some r.localSide.column
    else if r.remoteSide.node = target then some r.remoteSide.column
    else none
  else none

/-- A restriction gives a seed if it is an equality with the target, for the column that it equates
and from the opposite column. -/
theorem seed?_eq_some_iff {r : PinnedRestriction} {target : Nat} {seed : Seed} :
    r.seed? target = some seed ↔
      ∃ opposite, r.Equates target seed.field opposite ∧ seed.sources = [opposite] := by
  obtain ⟨comparison, ⟨near, column⟩, ⟨far, other⟩⟩ := r
  obtain ⟨field, sources⟩ := seed
  unfold seed? Equates
  by_cases hcomparison : comparison = .equals
  · by_cases hnear : near = target
    · simp [hcomparison, hnear, eq_comm]
    · by_cases hfar : far = target
      · simp [hcomparison, hnear, Ne.symm hnear, hfar, eq_comm]
      · simp [hcomparison, hnear, hfar]
  · simp [hcomparison]

/-- An equality leaves no choice: it has one column on the target, and one opposite column. -/
theorem seed?_of_equates {r : PinnedRestriction} {target : Nat} {column : String}
    {opposite : PinnedColumn} (h : r.Equates target column opposite) :
    r.seed? target = some ⟨column, [opposite]⟩ :=
  seed?_eq_some_iff.mpr ⟨opposite, h, rfl⟩

/-- A seed is for the column that the restriction equates. -/
theorem map_field_seed? (r : PinnedRestriction) (target : Nat) :
    (r.seed? target).map (·.field) = r.equated? target := by
  unfold seed? equated?
  by_cases hcomparison : r.comparison = .equals
  · rw [if_neg (not_not_intro hcomparison), if_pos hcomparison]
    split
    next => rfl
    next =>
      split
      next => rfl
      next => rfl
  · rw [if_pos hcomparison, if_neg hcomparison]
    rfl

/-- The search for an equated column finds what a restriction equates. -/
theorem equated?_eq_some_iff {r : PinnedRestriction} {target : Nat} {column : String} :
    r.equated? target = some column ↔ ∃ opposite, r.Equates target column opposite := by
  rw [← map_field_seed?, Option.map_eq_some_iff]
  constructor
  · intro hfound
    obtain ⟨seed, hseed, rfl⟩ := hfound
    obtain ⟨opposite, hequates, _⟩ := seed?_eq_some_iff.mp hseed
    exact ⟨opposite, hequates⟩
  · intro hequated
    obtain ⟨opposite, hequates⟩ := hequated
    exact ⟨_, seed?_of_equates hequates, rfl⟩

end PinnedRestriction

namespace Link

/-- Both ends of the reference have a column of this name. -/
def Shares (l : Link) (name : String) : Prop :=
  l.childNode.entity.hasColumn name = true ∧ l.parentNode.entity.hasColumn name = true

/-- The reference itself identifies the record by this column of the target. -/
def Identifies (l : Link) (name : String) : Prop :=
  (l.childNode.kind = .natural ∧ l.Shares name) ∨
    (l.childNode.kind ≠ .natural ∧
      ∃ r ∈ l.reference.pinned, ∃ opposite, r.Equates l.child name opposite)

/-- The columns by which the reference identifies the record, in the order in which they are seeded.
A column may be there more than once. -/
def identifying (l : Link) : List String :=
  if l.childNode.kind = .natural then
    l.childNode.entity.columns.filter l.parentNode.entity.hasColumn
  else l.reference.pinned.filterMap (·.equated? l.child)

/-- The fields of the record behind the reference, in the order in which they are seeded. -/
def fieldNames (l : Link) : List String :=
  l.identifying ++ l.childNode.entity.primaryKey

/-- The enumerated columns are those that identify the related record. -/
theorem mem_identifying {l : Link} {name : String} :
    name ∈ l.identifying ↔ l.Identifies name := by
  by_cases hkind : l.childNode.kind = .natural
  · rw [identifying, if_pos hkind, Identifies, or_iff_left fun h => h.1 hkind, and_iff_right hkind]
    exact mem_shared
  · rw [identifying, if_neg hkind, Identifies, or_iff_right fun h => hkind h.1,
      and_iff_right hkind, List.mem_filterMap]
    simp only [PinnedRestriction.equated?_eq_some_iff]

/-- A field identifies the record through the reference or as part of the target's key. -/
theorem mem_fieldNames {l : Link} {name : String} :
    name ∈ l.fieldNames ↔ l.Identifies name ∨ name ∈ l.childNode.entity.primaryKey := by
  rw [fieldNames, List.mem_append, mem_identifying]

end Link

/-- The columns that identify a record are columns of its entity. -/
theorem JoinGraph.Inv.hasColumn_of_mem_fieldNames {g : JoinGraph} (h : g.Inv) {l : Link}
    (hl : l ∈ g.links) {name : String} (hname : name ∈ l.fieldNames) :
    l.childNode.entity.hasColumn name = true := by
  have hat := h.linkAt (h.mem_links.mp hl)
  have hown {last : Nat} (howns : g.Owns last ⟨l.child, name⟩) :
      l.childNode.entity.hasColumn name = true := by
    obtain ⟨_, n, hn, hcolumn⟩ := howns
    have hnode := hat.childNode
    rw [show g.node? l.child = some n from hn, Option.some.injEq] at hnode
    rw [← hnode]
    exact hcolumn
  rcases Link.mem_fieldNames.mp hname with (⟨_, hshared⟩ | ⟨_, r, hr, opposite, _, hsides⟩) | hkey
  · exact hshared.1
  · obtain ⟨declared, _, hpinned⟩ := exists_of_mem_right hat.pinnedAs hr
    rcases hsides with ⟨hlocal, _⟩ | ⟨_, hremote, _⟩
    · exact hown (hlocal ▸ hpinned.localOwned)
    · exact hown (hremote ▸ hpinned.remoteOwned)
  · have hsound := h.nodes _ _ hat.childNode
    exact (Entity.of_defect?_eq_none hsound.accepted).2 name hkey

/-! ## The seed of a field -/

/-- The seed of a shared column may be read from either side of the reference. -/
def Link.sharedSeed (l : Link) (column : String) : Seed :=
  ⟨column, [⟨l.parent, column⟩, ⟨l.child, column⟩]⟩

/-- The seed that counts for a field of the record behind the reference. -/
inductive Link.FirstSeed (l : Link) (name : String) : Seed → Prop
  | shared : l.childNode.kind = .natural → l.Shares name → FirstSeed l name (l.sharedSeed name)
  -- of several equalities for a field the first counts
  | equated {before after : List PinnedRestriction} {r : PinnedRestriction} {c : PinnedColumn} :
      l.childNode.kind ≠ .natural → l.reference.pinned = before ++ r :: after →
      (∀ b ∈ before, ∀ other, ¬ b.Equates l.child name other) → r.Equates l.child name c →
      FirstSeed l name ⟨name, [c]⟩
  -- a key column that the reference does not carry is the target's own
  | own : ¬ l.Identifies name → name ∈ l.childNode.entity.primaryKey →
      FirstSeed l name ⟨name, [⟨l.child, name⟩]⟩

/-- A column that the value of a field may be read from. -/
def Link.Draws (l : Link) (name : String) (c : PinnedColumn) : Prop :=
  ∃ seed, l.FirstSeed name seed ∧ c ∈ seed.sources

/-- In a list of seeds with one for each name, the seed of a name is found if it is there. -/
theorem find?_map_seed {seed : String → Seed} (hfield : ∀ n, (seed n).field = n)
    (names : List String) (name : String) :
    (names.map seed).find? (·.field == name) =
      if name ∈ names then some (seed name) else none := by
  induction names with
  | nil => rfl
  | cons first rest ih =>
    rw [List.map_cons, List.find?_cons, hfield]
    by_cases hfirst : first = name
    · rw [hfirst, beq_self_eq_true, if_pos (List.mem_cons_self ..)]
    · rw [beq_eq_false_iff_ne.mpr hfirst, ih]
      simp only [List.mem_cons, Ne.symm hfirst, false_or]

/-- The first equality for a field gives its seed. -/
theorem find?_filterMap_seed?_iff {pinned : List PinnedRestriction} {target : Nat} {name : String}
    {seed : Seed} :
    (pinned.filterMap (·.seed? target)).find? (·.field == name) = some seed ↔
      ∃ before r after c, pinned = before ++ r :: after ∧
        (∀ b ∈ before, ∀ other, ¬ b.Equates target name other) ∧ r.Equates target name c ∧
        seed = ⟨name, [c]⟩ := by
  have hany (r : PinnedRestriction) :
      (r.seed? target).any (·.field == name) = true ↔ ∃ opposite, r.Equates target name opposite := by
    rw [← PinnedRestriction.equated?_eq_some_iff, ← PinnedRestriction.map_field_seed?,
      Option.map_eq_some_iff, Option.any_eq_true]
    simp only [beq_iff_eq]
  rw [List.find?_filterMap, Option.bind_eq_some_iff]
  constructor
  · intro ⟨r, hr, hseed⟩
    obtain ⟨hfound, before, after, hpinned, hbefore⟩ := List.find?_eq_some_iff_append.mp hr
    obtain ⟨c, hequates⟩ := (hany r).mp hfound
    rw [PinnedRestriction.seed?_of_equates hequates, Option.some.injEq] at hseed
    refine ⟨before, r, after, c, hpinned, ?_, hequates, hseed.symm⟩
    intro b hb other hother
    have hnone := hbefore b hb
    rw [(hany b).mpr ⟨other, hother⟩] at hnone
    exact nomatch hnone
  · intro ⟨before, r, after, c, hpinned, hbefore, hequates, hseed⟩
    refine ⟨r, List.find?_eq_some_iff_append.mpr ⟨?_, before, after, hpinned, ?_⟩, ?_⟩
    · exact (hany r).mpr ⟨c, hequates⟩
    · intro b hb
      rw [Bool.not_eq_true', ← Bool.not_eq_true, hany]
      exact fun ⟨other, hother⟩ => hbefore b hb other hother
    · rw [hseed, PinnedRestriction.seed?_of_equates hequates]

/-- There is no seed for a name that is not a field. -/
theorem find?_field_eq_none_iff {seeds : List Seed} {name : String} :
    seeds.find? (·.field == name) = none ↔ name ∉ seeds.map (·.field) := by
  rw [List.find?_eq_none, List.mem_map]
  constructor
  · exact fun hall ⟨seed, hseed, hname⟩ => hall seed hseed (beq_iff_eq.mpr hname)
  · exact fun hnone seed hseed hname => hnone ⟨seed, hseed, beq_iff_eq.mp hname⟩

namespace View

/-- The seeds of the record behind a reference. -/
def seedsOf (v : View) (l : Link) : List Seed :=
  v.referenceSeeds (.ofLink l) ++ keySeeds l.child l.childNode.entity

/-- A reference of the graph has the seeds of the columns it shares, or those of its equalities. -/
theorem referenceSeeds_ofLink {v : View} (h : v.graph.Inv) {l : Link} (hl : l ∈ v.graph.links) :
    v.referenceSeeds (.ofLink l) =
      if l.childNode.kind = .natural then l.shared.map l.sharedSeed
      else l.reference.pinned.filterMap (·.seed? l.child) := by
  have hlink : v.graph.link? l.edge = some l := h.mem_links.mp hl
  unfold Accessor.ofLink
  by_cases hkind : l.childNode.kind = .natural
  · rw [if_pos hkind, if_pos hkind, referenceSeeds, hlink]
    rfl
  · rw [if_neg hkind, if_neg hkind, referenceSeeds, hlink]

/-- The reference asks for the columns that identify the related record. -/
theorem map_field_referenceSeeds {v : View} (h : v.graph.Inv) {l : Link}
    (hl : l ∈ v.graph.links) :
    (v.referenceSeeds (.ofLink l)).map (·.field) = l.identifying := by
  rw [referenceSeeds_ofLink h hl, Link.identifying]
  by_cases hkind : l.childNode.kind = .natural
  · rw [if_pos hkind, if_pos hkind, List.map_map]
    exact List.map_id l.shared
  · rw [if_neg hkind, if_neg hkind, List.map_filterMap]
    simp only [PinnedRestriction.map_field_seed?]

/-- The seeds name the fields in the order in which the reference does. -/
theorem map_field_seedsOf {v : View} (h : v.graph.Inv) {l : Link} (hl : l ∈ v.graph.links) :
    (v.seedsOf l).map (·.field) = l.fieldNames := by
  rw [seedsOf, List.map_append, map_field_referenceSeeds h hl, keySeeds, List.map_map]
  exact congrArg _ (List.map_id _)

/-- Of the seeds for a field the first is the one that counts by the reference. -/
theorem find?_seedsOf_eq_some_iff {v : View} (h : v.graph.Inv) {l : Link} (hl : l ∈ v.graph.links)
    {name : String} {seed : Seed} :
    (v.seedsOf l).find? (·.field == name) = some seed ↔ l.FirstSeed name seed := by
  have hkeys : (keySeeds l.child l.childNode.entity).find? (·.field == name) =
      if name ∈ l.childNode.entity.primaryKey then some ⟨name, [⟨l.child, name⟩]⟩ else none :=
    find?_map_seed (fun _ => rfl) _ name
  have hnone : (v.referenceSeeds (.ofLink l)).find? (·.field == name) = none ↔
      ¬ l.Identifies name := by
    rw [find?_field_eq_none_iff, map_field_referenceSeeds h hl, Link.mem_identifying]
  rw [seedsOf, List.find?_append, hkeys]
  constructor
  · intro hseed
    rcases Option.or_eq_some_iff.mp hseed with hreference | ⟨hmissing, hkey⟩
    · rw [referenceSeeds_ofLink h hl] at hreference
      split at hreference
      next hkind =>
        rw [find?_map_seed fun _ => rfl] at hreference
        split at hreference
        next hshared =>
          rw [← Option.some.inj hreference]
          exact .shared hkind (Link.mem_shared.mp hshared)
        next => exact nomatch hreference
      next hkind =>
        obtain ⟨before, r, after, c, hpinned, hbefore, hequates, rfl⟩ :=
          find?_filterMap_seed?_iff.mp hreference
        exact .equated hkind hpinned hbefore hequates
    · split at hkey
      next hmem =>
        rw [← Option.some.inj hkey]
        exact .own (hnone.mp hmissing) hmem
      next => exact nomatch hkey
  · intro hfirst
    cases hfirst with
    | shared hkind hshared =>
      rw [referenceSeeds_ofLink h hl, if_pos hkind, find?_map_seed fun _ => rfl,
        if_pos (Link.mem_shared.mpr hshared), Option.some_or]
    | equated hkind hpinned hbefore hequates =>
      rw [referenceSeeds_ofLink h hl, if_neg hkind,
        find?_filterMap_seed?_iff.mpr ⟨_, _, _, _, hpinned, hbefore, hequates, rfl⟩, Option.some_or]
    | own hnot hmem => rw [hnone.mpr hnot, Option.none_or, if_pos hmem]

/-! ## Where values are read -/

/-- In the order of the view's columns this is the first output that is taken from the column. -/
def FirstOutput (v : View) (c : PinnedColumn) (output : String) : Prop :=
  ∃ before p after, v.columns.values = before ++ p :: after ∧
    (∀ q ∈ before, ¬ (q.node = c.node ∧ q.column = c.column)) ∧
    p.node = c.node ∧ p.column = c.column ∧ p.output = output

/-- The row has the value under the first output that is taken from the column. -/
def Reads (v : View) (row : Record) (c : PinnedColumn) (value : Value) : Prop :=
  ∃ output, v.FirstOutput c output ∧ row.get? output = some value

/-- An output name found is the first of those under which the column is shown. -/
theorem outputOf?_eq_some_iff {v : View} {c : PinnedColumn} {output : String} :
    v.outputOf? c = some output ↔ v.FirstOutput c output := by
  rw [outputOf?, Option.map_eq_some_iff]
  constructor
  · intro hex
    obtain ⟨p, hp, houtput⟩ := hex
    obtain ⟨hsource, before, after, hvalues, hbefore⟩ := List.find?_eq_some_iff_append.mp hp
    rw [Bool.and_eq_true, beq_iff_eq, beq_iff_eq] at hsource
    refine ⟨before, p, after, hvalues, ?_, hsource.1, hsource.2, houtput⟩
    intro q hq hsame
    have hother := hbefore q hq
    rw [hsame.1, hsame.2, beq_self_eq_true, beq_self_eq_true] at hother
    exact absurd hother (by decide)
  · intro hfirst
    obtain ⟨before, p, after, hvalues, hbefore, hnode, hcolumn, houtput⟩ := hfirst
    refine ⟨p, List.find?_eq_some_iff_append.mpr ⟨?_, before, after, hvalues, ?_⟩, houtput⟩
    · rw [hnode, hcolumn, beq_self_eq_true, beq_self_eq_true]
      rfl
    · intro q hq
      rw [Bool.not_eq_true', ← Bool.not_eq_true, Bool.and_eq_true, beq_iff_eq, beq_iff_eq]
      exact hbefore q hq

/-- Reading is looking the output name up in the row. -/
theorem reads_iff {v : View} {row : Record} {c : PinnedColumn} {value : Value} :
    v.Reads row c value ↔ (v.outputOf? c).bind row.get? = some value := by
  rw [Option.bind_eq_some_iff, Reads]
  simp only [outputOf?_eq_some_iff]

/-- A row has a value for a seed unless it has none for any of the columns it may be read from. -/
theorem valueOf?_eq_none_iff {v : View} {row : Record} {seed : Seed} :
    v.valueOf? row seed = none ↔ ∀ c ∈ seed.sources, ∀ value, ¬ v.Reads row c value := by
  rw [valueOf?, List.findSome?_eq_none_iff]
  refine forall₂_congr fun c _ => ?_
  simp only [Option.eq_none_iff_forall_ne_some, ne_eq, reads_iff]

end View

end Joinery
