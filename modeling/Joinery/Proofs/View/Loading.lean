import Joinery.Outcome
import Joinery.Proofs.View.Entities
import Joinery.Proofs.View.Sources

/-!
# When a related record can be loaded

A record is seeded field by field, and of several seeds for one field the first counts, whether
or not it can be read (`fieldsFrom_eq`). So a record is loaded exactly if each seed that counts
has a value in the row, and otherwise the first that has none is named (`load_eq_error_iff`).

In a row with a value for every column of the view a seed has a value if the view exposes one of
its sources (`valueOf?_isSome_iff`). The key of the target being exposed is not enough for that.
A natural reference also carries the shared columns, which may be shadowed: the view then shows
the name from some other node only. Any other reference carries the columns opposite to the
target in its equalities. `load_of_reachable` has both.

The function that loads is `View.load`.
-/

namespace Joinery

namespace View

/-- The seeds that count, where some fields are taken already: the first of each other field. -/
def counting (taken : List String) : List Seed → List Seed
  | [] => []
  | seed :: rest =>
    if taken.contains seed.field then counting taken rest
    else seed :: counting (taken ++ [seed.field]) rest

/-- The field that a seed gives, from a row that has a value for it. -/
def readSeed (v : View) (relation : String) (row : Record) (seed : Seed) :
    Except ViewError (String × Value) :=
  match v.valueOf? row seed with
  | some value => .ok (seed.field, value)
  | none => .error (.missingValue relation seed.field)

/-- The fields of a record are those of the seeds that count, in order. -/
theorem fieldsFrom_eq (v : View) (relation : String) (row : Record)
    (fields : List (String × Value)) (seeds : List Seed) :
    v.fieldsFrom relation row fields seeds =
      ((counting (fields.map (·.1)) seeds).mapM (v.readSeed relation row)).map (fields ++ ·) := by
  induction seeds generalizing fields with
  | nil =>
    show Except.ok fields = .ok (fields ++ [])
    rw [List.append_nil]
  | cons seed rest ih =>
    have htaken : fields.any (·.1 == seed.field) = (fields.map (·.1)).contains seed.field := by
      rw [List.contains_eq_any_beq, List.any_map]
      congr 1
      funext field
      exact BEq.comm
    rw [fieldsFrom, counting, htaken]
    split
    next => exact ih fields
    next =>
      rw [List.mapM_cons, readSeed]
      cases hvalue : v.valueOf? row seed with
      | none => rfl
      | some value =>
        simp only
        rw [ih, List.map_append]
        show Except.map _ (List.mapM _ (counting (fields.map (·.1) ++ [seed.field]) rest)) = _
        cases (counting (fields.map (·.1) ++ [seed.field]) rest).mapM (v.readSeed relation row) with
        | error e => rfl
        | ok more =>
          show Except.ok (fields ++ [(seed.field, value)] ++ more) = _
          rw [List.append_assoc]
          rfl

/-- A seed counts if no seed before it gives its field. -/
theorem mem_counting {taken : List String} {seeds : List Seed} {seed : Seed} :
    seed ∈ counting taken seeds ↔
      seed.field ∉ taken ∧ seeds.find? (·.field == seed.field) = some seed := by
  induction seeds generalizing taken with
  | nil => simp [counting]
  | cons first rest ih =>
    rw [counting, List.find?_cons]
    by_cases hfield : first.field = seed.field
    · rw [hfield, beq_self_eq_true]
      split
      next htaken =>
        have hmem := List.contains_iff_mem.mp htaken
        exact iff_of_false (fun h => (ih.mp h).1 hmem) (fun h => h.1 hmem)
      next htaken =>
        rw [List.contains_iff_mem] at htaken
        have hrest : seed ∉ counting (taken ++ [seed.field]) rest := fun h =>
          (ih.mp h).1 (List.mem_append_right _ (List.mem_singleton_self _))
        rw [List.mem_cons, or_iff_left hrest, Option.some.injEq, eq_comm]
        exact (and_iff_right htaken).symm
    · rw [beq_eq_false_iff_ne.mpr hfield]
      split
      next => exact ih
      next =>
        have hne : seed ≠ first := fun heq => hfield (by rw [heq])
        rw [List.mem_cons, or_iff_right hne, ih, List.mem_append, List.mem_singleton, not_or]
        rw [and_iff_left (Ne.symm hfield)]

/-! ## What a view exposes -/

/-- Some output of the view is taken from the column. -/
def Exposes (v : View) (c : PinnedColumn) : Prop :=
  ∃ p ∈ v.columns.values, p.node = c.node ∧ p.column = c.column

/-- The row has a value for every column of the view. -/
def Complete (v : View) (row : Record) : Prop :=
  ∀ output ∈ v.toEntity.columns, (row.get? output).isSome = true

instance (v : View) (c : PinnedColumn) : Decidable (v.Exposes c) :=
  inferInstanceAs (Decidable (∃ p ∈ v.columns.values, p.node = c.node ∧ p.column = c.column))

instance (v : View) (row : Record) : Decidable (v.Complete row) :=
  inferInstanceAs (Decidable (∀ output ∈ v.toEntity.columns, (row.get? output).isSome = true))

/-- The view exposes a source of the seed. -/
def Offers (v : View) (seed : Seed) : Prop :=
  ∃ c ∈ seed.sources, v.Exposes c

instance (v : View) (seed : Seed) : Decidable (v.Offers seed) :=
  inferInstanceAs (Decidable (∃ c ∈ seed.sources, v.Exposes c))

/-- A column has an output name if the view exposes it. -/
theorem outputOf?_isSome_iff {v : View} {c : PinnedColumn} :
    (v.outputOf? c).isSome = true ↔ v.Exposes c := by
  rw [outputOf?, Option.isSome_map, List.find?_isSome]
  simp only [Bool.and_eq_true, beq_iff_eq]
  rfl

theorem output_mem_columns {v : View} {c : PinnedColumn} {output : String}
    (h : v.outputOf? c = some output) : output ∈ v.toEntity.columns := by
  obtain ⟨p, hp, rfl⟩ := Option.map_eq_some_iff.mp h
  rw [columns_toEntity]
  exact List.mem_map_of_mem (List.mem_of_find?_eq_some hp)

/-- A complete row has a value for whatever the view offers, and for nothing else. -/
theorem valueOf?_isSome_iff {v : View} {row : Record} (h : v.Complete row) {seed : Seed} :
    (v.valueOf? row seed).isSome = true ↔ v.Offers seed := by
  rw [valueOf?, List.findSome?_isSome_iff]
  constructor
  · intro hvalued
    obtain ⟨c, hc, hvalue⟩ := hvalued
    refine ⟨c, hc, outputOf?_isSome_iff.mp ?_⟩
    cases houtput : v.outputOf? c with
    | none =>
      rw [houtput] at hvalue
      exact hvalue
    | some output => rfl
  · intro hoffers
    obtain ⟨c, hc, hexposes⟩ := hoffers
    refine ⟨c, hc, ?_⟩
    obtain ⟨output, houtput⟩ := Option.isSome_iff_exists.mp (outputOf?_isSome_iff.mpr hexposes)
    rw [houtput]
    exact h output (output_mem_columns houtput)

/-- In a complete row exactly those seeds lack a value that the view does not offer. -/
theorem lacks_iff {v : View} {row : Record} (h : v.Complete row) {seed : Seed} :
    (!(v.valueOf? row seed).isSome) = true ↔ ¬ v.Offers seed := by
  rw [Bool.not_eq_true', ← Bool.not_eq_true, valueOf?_isSome_iff h]

/-! ## Relations -/

/-- A relation of a view is a reference of its graph. -/
theorem mem_of_foldlM_addAccessor {entries : List (String × Accessor)}
    {known relations : Registry Accessor} (hknown : known.Sorted)
    (h : entries.foldlM addAccessor known = .ok relations) {name : String} {a : Accessor}
    (ha : relations.get? name = some a) : known.get? name = some a ∨ (name, a) ∈ entries := by
  induction entries generalizing known with
  | nil =>
    rw [← Except.ok.inj h] at ha
    exact .inl ha
  | cons entry entries ih =>
    rw [List.foldlM_cons, bind_eq_ok_iff] at h
    obtain ⟨next, hadd, hrest⟩ := h
    unfold addAccessor at hadd
    split at hadd
    next => exact nomatch hadd
    next =>
      have hnext := Except.ok.inj hadd
      rw [← hnext] at hrest
      rcases ih (hknown.claim _ _) hrest with hget | hmem
      · rw [Registry.get?_claim hknown] at hget
        split at hget
        next heq =>
          rw [← heq] at hget
          cases hfree : known.get? name with
          | some b =>
            rw [hfree] at hget
            exact .inl hget
          | none =>
            rw [hfree, Option.none_or, Option.some.injEq] at hget
            right
            rw [heq, ← hget]
            exact List.mem_cons_self ..
        next => exact .inl hget
      · exact .inr (List.mem_cons_of_mem _ hmem)

/-- A relation of a view is a reference of its graph, by the relation or alias of what it joins. -/
theorem link_of_relation {v : View} (hv : v.Created) {relation : String} {a : Accessor}
    (ha : v.relations.get? relation = some a) : ∃ l ∈ v.graph.links, a = .ofLink l ∧
      (relation = l.childNode.relation ∨ relation = l.childNode.tableAlias) := by
  obtain ⟨first, c, hfirst, heq⟩ := hv
  obtain ⟨_, relations, haccessors, rfl⟩ := create_eq_ok_iff.mp hfirst
  rw [heq] at ha
  rcases mem_of_foldlM_addAccessor Registry.sorted_empty haccessors ha with hnone | hmem
  · exact nomatch hnone
  · obtain ⟨l, hl, hentry⟩ := List.mem_flatMap.mp hmem
    refine ⟨l, hl, ?_⟩
    simp only [accessNames, List.mem_cons, List.not_mem_nil, or_false, Prod.mk.injEq] at hentry
    rcases hentry with ⟨hname, ha⟩ | ⟨hname, ha⟩
    · exact ⟨ha, .inl hname⟩
    · exact ⟨ha, .inr hname⟩

/-- Loading through a reference reads its seeds one by one into a record of the child. -/
theorem load_eq {v : View} (h : v.graph.Inv) {relation : String} {l : Link}
    (hl : l ∈ v.graph.links) (ha : v.relations.get? relation = some (.ofLink l)) (row : Record) :
    v.load relation row =
      ((counting [] (v.seedsOf l)).mapM (v.readSeed relation row)).map fun fields =>
        Record.ofFields l.childNode.entity fields row.database := by
  have hnode := (h.linkAt (h.mem_links.mp hl)).childNode
  unfold load
  rw [ha]
  simp only
  rw [Accessor.target_ofLink, hnode]
  show Except.bind (v.fieldsFrom relation row [] (v.seedsOf l)) _ = _
  rw [fieldsFrom_eq, List.map_nil]
  cases (counting [] (v.seedsOf l)).mapM (v.readSeed relation row) with
  | error e => rfl
  | ok fields => rfl

/-- Loading fails if a seed that counts has no value, and names the first such seed. -/
theorem load_eq_error_iff {v : View} (h : v.graph.Inv) {relation : String} {l : Link}
    (hl : l ∈ v.graph.links) (ha : v.relations.get? relation = some (.ofLink l)) {row : Record}
    {e : ViewError} :
    v.load relation row = .error e ↔ ∃ seed,
      (counting [] (v.seedsOf l)).find? (fun seed => !(v.valueOf? row seed).isSome) = some seed ∧
      e = .missingValue relation seed.field := by
  have hread (seed : Seed) : (v.readSeed relation row seed).isOk = (v.valueOf? row seed).isSome := by
    unfold readSeed
    cases v.valueOf? row seed with
    | none => rfl
    | some value => rfl
  have hload : v.load relation row = .error e ↔
      (counting [] (v.seedsOf l)).mapM (v.readSeed relation row) = .error e := by
    rw [load_eq h hl ha]
    cases (counting [] (v.seedsOf l)).mapM (v.readSeed relation row) with
    | error e => simp [Except.map]
    | ok fields => simp [Except.map]
  rw [hload, mapM_eq_error_iff]
  simp only [hread]
  constructor
  · intro ⟨seed, hseed, herror⟩
    refine ⟨seed, hseed, ?_⟩
    have hvalue := List.find?_some hseed
    unfold readSeed at herror
    cases hnone : v.valueOf? row seed with
    | some value =>
      rw [hnone] at hvalue
      exact nomatch hvalue
    | none =>
      rw [hnone] at herror
      exact (Except.error.inj herror).symm
  · intro ⟨seed, hseed, he⟩
    refine ⟨seed, hseed, ?_⟩
    have hvalue := List.find?_some hseed
    rw [Bool.not_eq_true', Option.isSome_eq_false_iff, Option.isNone_iff_eq_none] at hvalue
    rw [readSeed, hvalue, he]

/-- Loading succeeds if every seed that counts has a value. -/
theorem load_isOk_iff {v : View} (h : v.graph.Inv) {relation : String} {l : Link}
    (hl : l ∈ v.graph.links) (ha : v.relations.get? relation = some (.ofLink l)) {row : Record} :
    (v.load relation row).isOk = true ↔
      ∀ seed ∈ counting [] (v.seedsOf l), (v.valueOf? row seed).isSome = true := by
  have hall : (counting [] (v.seedsOf l)).find? (fun seed => !(v.valueOf? row seed).isSome) = none ↔
      ∀ seed ∈ counting [] (v.seedsOf l), (v.valueOf? row seed).isSome = true := by
    rw [List.find?_eq_none]
    simp only [Bool.not_eq_true', Bool.not_eq_false]
  rw [← hall]
  cases hload : v.load relation row with
  | error e =>
    obtain ⟨seed, hseed, _⟩ := (load_eq_error_iff h hl ha).mp hload
    rw [hseed]
    exact iff_of_false (fun hok => nomatch hok) (by simp)
  | ok record =>
    refine iff_of_true rfl ?_
    cases hfind : (counting [] (v.seedsOf l)).find? fun seed => !(v.valueOf? row seed).isSome with
    | none => rfl
    | some seed =>
      have herror := (load_eq_error_iff h hl ha).mpr ⟨seed, hfind, rfl⟩
      rw [hload] at herror
      exact nomatch herror

/-! ## Complete rows -/

/-- The view exposes the key of the target, from the target. -/
def ExposesKey (v : View) (l : Link) : Prop :=
  ∀ column ∈ l.childNode.entity.primaryKey, v.Exposes ⟨l.child, column⟩

/-- The view exposes the shared column neither from the parent nor from the target, so that if it
has the name at all, the name stands for something else. -/
def Shadows (v : View) (l : Link) (column : String) : Prop :=
  ¬ v.Exposes ⟨l.parent, column⟩ ∧ ¬ v.Exposes ⟨l.child, column⟩

/-- A view that exposes the key offers its seeds. -/
theorem offers_of_mem_keySeeds {v : View} {l : Link} (hkey : v.ExposesKey l) {seed : Seed}
    (hseed : seed ∈ keySeeds l.child l.childNode.entity) : v.Offers seed := by
  obtain ⟨column, hcolumn, rfl⟩ := List.mem_map.mp hseed
  exact ⟨_, List.mem_singleton_self _, hkey column hcolumn⟩

/-- A field that is only in the key is the target's own, and so it is exposed with the key. -/
theorem offers_of_firstSeed {v : View} {l : Link} (hkey : v.ExposesKey l) {name : String} {seed : Seed}
    (hfirst : l.FirstSeed name seed) (hname : ¬ l.Identifies name) : v.Offers seed := by
  cases hfirst with
  | shared hkind hshared => exact absurd (.inl ⟨hkind, hshared⟩) hname
  | equated hkind hpinned _ hequates =>
    refine absurd (.inr ⟨hkind, _, ?_, _, hequates⟩) hname
    rw [hpinned]
    exact List.mem_append_right _ (List.mem_cons_self ..)
  | own _ hmem => exact ⟨_, List.mem_singleton_self _, hkey name hmem⟩

/-- The seeds that count for loading are those that count by the reference. -/
theorem mem_counting_seedsOf {v : View} (h : v.graph.Inv) {l : Link} (hl : l ∈ v.graph.links)
    {seed : Seed} : seed ∈ counting [] (v.seedsOf l) ↔ l.FirstSeed seed.field seed := by
  rw [mem_counting, find?_seedsOf_eq_some_iff h hl]
  exact and_iff_right List.not_mem_nil

/-- There is one seed that counts for a field, so the field draws on the columns of that one. -/
theorem draws_iff {v : View} (h : v.graph.Inv) {l : Link} (hl : l ∈ v.graph.links) {name : String}
    {seed : Seed} (hfirst : l.FirstSeed name seed) {c : PinnedColumn} :
    l.Draws name c ↔ c ∈ seed.sources := by
  constructor
  · intro hdraws
    obtain ⟨other, hother, hc⟩ := hdraws
    have hfind := (find?_seedsOf_eq_some_iff h hl).mpr hother
    rw [(find?_seedsOf_eq_some_iff h hl).mpr hfirst, Option.some.injEq] at hfind
    rw [hfind]
    exact hc
  · exact fun hc => ⟨seed, hfirst, hc⟩

/-- With the key exposed a complete row needs no more than a source for each column by which the
reference itself identifies the record. -/
theorem load_isOk_of_exposes {v : View} (h : v.graph.Inv) {relation : String} {l : Link}
    (hl : l ∈ v.graph.links) (ha : v.relations.get? relation = some (.ofLink l)) {row : Record}
    (hrow : v.Complete row) (hkey : v.ExposesKey l)
    (hexposes : ∀ name, l.Identifies name → ∃ c, l.Draws name c ∧ v.Exposes c) :
    (v.load relation row).isOk = true := by
  rw [load_isOk_iff h hl ha]
  intro seed hseed
  have hfirst := (mem_counting_seedsOf h hl).mp hseed
  rw [valueOf?_isSome_iff hrow]
  by_cases hname : l.Identifies seed.field
  · obtain ⟨c, hdraws, hc⟩ := hexposes seed.field hname
    exact ⟨c, (draws_iff h hl hfirst).mp hdraws, hc⟩
  · exact offers_of_firstSeed hkey hfirst hname

/-- Where seeds for one field are alike in lacking a value, the first seed that lacks one counts. -/
theorem find?_counting {lacks : Seed → Bool} {taken : List String} {seeds : List Seed}
    (htaken : ∀ s ∈ seeds, lacks s = true → s.field ∉ taken)
    (hsame : ∀ s ∈ seeds, ∀ t ∈ seeds, lacks t = true → s.field = t.field → lacks s = true) :
    (counting taken seeds).find? lacks = seeds.find? lacks := by
  induction seeds generalizing taken with
  | nil => rfl
  | cons seed rest ih =>
    have hrest : ∀ s ∈ rest, ∀ t ∈ rest, lacks t = true → s.field = t.field → lacks s = true :=
      fun s hs t ht => hsame s (List.mem_cons_of_mem _ hs) t (List.mem_cons_of_mem _ ht)
    rw [counting, List.find?_cons]
    split
    next hmem =>
      have hhas : lacks seed = false := by
        rw [← Bool.not_eq_true]
        exact fun hlacks =>
          htaken seed (List.mem_cons_self ..) hlacks (List.contains_iff_mem.mp hmem)
      rw [hhas]
      exact ih (fun s hs => htaken s (List.mem_cons_of_mem _ hs)) hrest
    next =>
      rw [List.find?_cons]
      cases hhas : lacks seed with
      | true => rfl
      | false =>
        refine ih ?_ hrest
        intro s hs hlacks hmem
        rcases List.mem_append.mp hmem with hmem | hfield
        · exact htaken s (List.mem_cons_of_mem _ hs) hlacks hmem
        · have hsameField : seed.field = s.field := (List.mem_singleton.mp hfield).symm
          have hseed := hsame seed (List.mem_cons_self ..) s (List.mem_cons_of_mem _ hs) hlacks
            hsameField
          rw [hhas] at hseed
          exact nomatch hseed

/-- The seeds of a natural join are the shared columns first and the key after them. -/
theorem seedsOf_natural {v : View} (h : v.graph.Inv) {l : Link} (hl : l ∈ v.graph.links)
    (hkind : l.childNode.kind = .natural) :
    v.seedsOf l = l.shared.map l.sharedSeed ++ keySeeds l.child l.childNode.entity := by
  rw [seedsOf, referenceSeeds_ofLink h hl, if_pos hkind]

/-- A shared column is offered unless both of its sides are hidden. -/
theorem offers_sharedSeed_iff {v : View} {l : Link} {column : String} :
    v.Offers (l.sharedSeed column) ↔ ¬ v.Shadows l column := by
  constructor
  · intro ⟨c, hc, hexposes⟩ hshadows
    rcases List.mem_cons.mp hc with rfl | hc
    · exact hshadows.1 hexposes
    · rw [List.mem_singleton.mp hc] at hexposes
      exact hshadows.2 hexposes
  · intro hclear
    by_contra hlacks
    refine hclear ⟨?_, ?_⟩
    · exact fun hexposes => hlacks ⟨_, List.mem_cons_self .., hexposes⟩
    · exact fun hexposes => hlacks ⟨_, List.mem_cons_of_mem _ (List.mem_cons_self ..), hexposes⟩

/-- A seed that lacks a source is that of a shared column, and so is any seed for its field. -/
theorem not_offers_of_field_eq {v : View} (h : v.graph.Inv) {l : Link} (hl : l ∈ v.graph.links)
    (hkind : l.childNode.kind = .natural) (hkey : v.ExposesKey l) {s t : Seed}
    (hs : s ∈ v.seedsOf l) (ht : t ∈ v.seedsOf l) (hlacks : ¬ v.Offers t)
    (hfield : s.field = t.field) : ¬ v.Offers s := by
  rw [seedsOf_natural h hl hkind, List.mem_append] at hs ht
  have hshared := ht.resolve_right fun htkey => hlacks (offers_of_mem_keySeeds hkey htkey)
  obtain ⟨column, _, rfl⟩ := List.mem_map.mp hshared
  rcases hs with hs | hs
  · obtain ⟨other, _, rfl⟩ := List.mem_map.mp hs
    change other = column at hfield
    rw [hfield]
    exact hlacks
  · obtain ⟨other, hother, rfl⟩ := List.mem_map.mp hs
    change other = column at hfield
    have hexposes := hkey other hother
    rw [hfield] at hexposes
    exact absurd ⟨_, List.mem_cons_of_mem _ (List.mem_singleton_self _), hexposes⟩ hlacks

/-- Behind a natural reference with its key exposed a record is loaded if no shared column is
shadowed. -/
theorem load_natural_isOk_iff {v : View} (h : v.graph.Inv) {relation : String} {l : Link}
    (hl : l ∈ v.graph.links) (ha : v.relations.get? relation = some (.ofLink l))
    (hkind : l.childNode.kind = .natural) {row : Record} (hrow : v.Complete row)
    (hkey : v.ExposesKey l) :
    (v.load relation row).isOk = true ↔ ∀ column, l.Shares column → ¬ v.Shadows l column := by
  rw [load_isOk_iff h hl ha]
  constructor
  · intro hall column hshared
    have hcounts : l.sharedSeed column ∈ counting [] (v.seedsOf l) :=
      (mem_counting_seedsOf h hl).mpr (.shared hkind hshared)
    have hvalue := hall _ hcounts
    rw [valueOf?_isSome_iff hrow] at hvalue
    exact offers_sharedSeed_iff.mp hvalue
  · intro hclear seed hseed
    have hfirst := (mem_counting_seedsOf h hl).mp hseed
    rw [valueOf?_isSome_iff hrow]
    by_cases hname : l.Identifies seed.field
    · have hshared := (hname.resolve_right fun hrestricted => hrestricted.1 hkind).2
      have hsame := (find?_seedsOf_eq_some_iff h hl).mpr (.shared hkind hshared)
      rw [(find?_seedsOf_eq_some_iff h hl).mpr hfirst, Option.some.injEq] at hsame
      rw [hsame]
      exact offers_sharedSeed_iff.mpr (hclear _ hshared)
    · exact offers_of_firstSeed hkey hfirst hname

/-- Behind a natural reference with its key exposed the first shared column that is shadowed is
named. -/
theorem load_natural_eq_error_iff {v : View} (h : v.graph.Inv) {relation : String} {l : Link}
    (hl : l ∈ v.graph.links) (ha : v.relations.get? relation = some (.ofLink l))
    (hkind : l.childNode.kind = .natural) {row : Record} (hrow : v.Complete row)
    (hkey : v.ExposesKey l) {e : ViewError} :
    v.load relation row = .error e ↔ ∃ before column after,
      l.childNode.entity.columns = before ++ column :: after ∧
      (∀ c ∈ before, l.Shares c → ¬ v.Shadows l c) ∧ l.Shares column ∧ v.Shadows l column ∧
      e = .missingValue relation column := by
  have hfirst : (counting [] (v.seedsOf l)).find? (fun s => !(v.valueOf? row s).isSome) =
      (v.seedsOf l).find? fun s => !(v.valueOf? row s).isSome := by
    refine find?_counting (fun _ _ _ => List.not_mem_nil) ?_
    intro s hs t ht hlacks hfield
    rw [lacks_iff hrow] at hlacks ⊢
    exact not_offers_of_field_eq h hl hkind hkey hs ht hlacks hfield
  have hkeys : (keySeeds l.child l.childNode.entity).find?
      (fun s => !(v.valueOf? row s).isSome) = none := by
    rw [List.find?_eq_none]
    exact fun seed hseed hlacks =>
      (lacks_iff hrow).mp hlacks (offers_of_mem_keySeeds hkey hseed)
  have hfails (column : String) : decide (l.parentNode.entity.hasColumn column = true ∧
        ((fun s => !(v.valueOf? row s).isSome) ∘ l.sharedSeed) column = true) = true ↔
      l.parentNode.entity.hasColumn column = true ∧ v.Shadows l column := by
    rw [decide_eq_true_iff, Function.comp_apply, lacks_iff hrow, offers_sharedSeed_iff,
      Classical.not_not]
  rw [load_eq_error_iff h hl ha, hfirst, seedsOf_natural h hl hkind, List.find?_append, hkeys,
    Option.or_none, List.find?_map, Link.shared, List.find?_filter]
  constructor
  · intro hfound
    obtain ⟨seed, hseed, he⟩ := hfound
    obtain ⟨column, hcolumn, rfl⟩ := Option.map_eq_some_iff.mp hseed
    obtain ⟨hlacks, before, after, hcolumns, hbefore⟩ := List.find?_eq_some_iff_append.mp hcolumn
    rw [hfails] at hlacks
    have hmem : column ∈ l.childNode.entity.columns := by
      rw [hcolumns]
      exact List.mem_append_right _ (List.mem_cons_self ..)
    refine ⟨before, column, after, hcolumns, ?_, ⟨Entity.hasColumn_iff.mpr hmem, hlacks.1⟩, hlacks.2,
      he⟩
    intro c hc hshared hshadowed
    have hclear := hbefore c hc
    rw [(hfails c).mpr ⟨hshared.2, hshadowed⟩] at hclear
    cases hclear
  · intro hshadow
    obtain ⟨before, column, after, hcolumns, hbefore, hshared, hshadowed, he⟩ := hshadow
    refine ⟨l.sharedSeed column, Option.map_eq_some_iff.mpr ⟨column, ?_, rfl⟩, he⟩
    refine List.find?_eq_some_iff_append.mpr
      ⟨(hfails column).mpr ⟨hshared.2, hshadowed⟩, before, after, hcolumns, ?_⟩
    intro c hc
    rw [Bool.not_eq_true', ← Bool.not_eq_true, hfails]
    have hmem : c ∈ l.childNode.entity.columns := by
      rw [hcolumns]
      exact List.mem_append_left _ hc
    intro hlacks
    obtain ⟨hparent, hshadows⟩ := hlacks
    exact hbefore c hc ⟨Entity.hasColumn_iff.mpr hmem, hparent⟩ hshadows

/-- A relation of a view loads from a complete row if the view exposes the key of the target from
the target, and for each column by which the reference identifies the record one that its value may
be read from. Without the latter the key is not enough: a natural reference fails where a shared
column is shadowed, and only there. What is named when a record is not loaded is a field that
identifies it, of whose sources the row has none. -/
theorem load_of_reachable {v : View} (h : v.graph.Reachable) (hv : v.Created) {relation : String}
    {a : Accessor} (ha : v.relations.get? relation = some a) :
    ∃ l ∈ v.graph.links, a = .ofLink l ∧
      (∀ row, v.Complete row → v.ExposesKey l →
        ((∀ name, l.Identifies name → ∃ c, l.Draws name c ∧ v.Exposes c) →
          (v.load relation row).isOk = true) ∧
        (l.childNode.kind = .natural →
          ((v.load relation row).isOk = true ↔ ∀ column, l.Shares column → ¬ v.Shadows l column) ∧
          ∀ e, v.load relation row = .error e ↔ ∃ before column after,
            l.childNode.entity.columns = before ++ column :: after ∧
            (∀ c ∈ before, l.Shares c → ¬ v.Shadows l c) ∧ l.Shares column ∧ v.Shadows l column ∧
            e = .missingValue relation column)) ∧
      ∀ row e, v.load relation row = .error e →
        ∃ name, (l.Identifies name ∨ name ∈ l.childNode.entity.primaryKey) ∧
          e = .missingValue relation name ∧
          ∀ c, l.Draws name c → ∀ value, ¬ v.Reads row c value := by
  obtain ⟨l, hl, rfl, _⟩ := link_of_relation hv ha
  refine ⟨l, hl, rfl, ?_, ?_⟩
  · intro row hrow hkey
    refine ⟨load_isOk_of_exposes h.inv hl ha hrow hkey, ?_⟩
    intro hkind
    exact ⟨load_natural_isOk_iff h.inv hl ha hkind hrow hkey,
      fun e => load_natural_eq_error_iff h.inv hl ha hkind hrow hkey⟩
  · intro row e herror
    obtain ⟨seed, hseed, he⟩ := (load_eq_error_iff h.inv hl ha).mp herror
    have hfirst := (mem_counting_seedsOf h.inv hl).mp (List.mem_of_find?_eq_some hseed)
    have hnone := List.find?_some hseed
    rw [Bool.not_eq_true', Option.isSome_eq_false_iff, Option.isNone_iff_eq_none,
      valueOf?_eq_none_iff] at hnone
    refine ⟨seed.field, ?_, he, fun c hdraws => hnone c ((draws_iff h.inv hl hfirst).mp hdraws)⟩
    rw [← Link.mem_fieldNames, ← map_field_seedsOf h.inv hl]
    exact List.mem_map_of_mem
      (List.mem_of_find?_eq_some (mem_counting.mp (List.mem_of_find?_eq_some hseed)).2)

end View

/-- Behind references of these kinds the key of the target being exposed would be enough. -/
def View.KeySuffices (kinds : JoinKind → Prop) : Prop :=
  ∀ v : View, v.graph.Reachable → v.Created → ∀ relation a n,
    v.relations.get? relation = some a → v.graph.node? a.target = some n → kinds n.kind →
    ∀ row, v.Complete row → (∀ column ∈ n.entity.primaryKey, v.Exposes ⟨a.target, column⟩) →
      (v.load relation row).isOk = true

namespace Warehouse

def profiles : Entity :=
  (((Entity.ofTable "profiles").withColumn "id" .integer).withColumn "name" .text).withColumn
    "bio" .text |>.withPrimaryKey ["id"]

/-- A root alone, for further joins. -/
def root : JoinGraph :=
  JoinGraph.ofRoot (JoinGraph.rootOf widgets "t1_widgets")

/-- A graph of widgets with their profiles and parts. The parts show their details as names. -/
def described (g : JoinGraph) : JoinGraph :=
  let joined := g.join ⟨"t", "j", 1⟩ 0 {
    entity := profiles, kind := .natural, projection := [("id", "profile")] }
  (joined.1.graph.join joined.2 0 {
    entity := parts, kind := .left, projection := [("id", "part"), ("detail", "name")]
    restrictions := [⟨.equals, .ofText "id", .ofText "part_id"⟩] }).1.graph

def catalog (g : JoinGraph) : View :=
  { name := "catalog", graph := described g, compiler := {}
    relations := (View.accessorsOf (described g)).toOption.getD .empty }

theorem reachable_root : root.Reachable :=
  @JoinGraph.Reachable.start .standard widgets _ rfl

theorem reachable_described {g : JoinGraph} (h : g.Reachable) : (described g).Reachable :=
  .join _ _ _ (.join _ _ _ h)

/-- The catalog is a view where its accessors have names of their own. -/
theorem created_catalog {g : JoinGraph} (h : (View.accessorsOf (described g)).isOk = true) :
    (catalog g).Created := by
  apply View.created_of_create
  refine View.create_eq_ok_iff.mpr ⟨by decide +kernel, _, ?_, rfl⟩
  obtain ⟨relations, haccessors⟩ := exists_of_isOk h
  rw [haccessors]
  rfl

/-- A row with a value under every name that such a view has. -/
def row : Record :=
  Record.ofFields widgets
    (["id", "name", "part", "part_id", "profile"].map fun name => (name, .integer 17)) none

/-- The key of each target is exposed, and yet neither record can be loaded: the name of a widget
is shadowed by the details of its part, and its part is not shown at all. -/
theorem not_keySuffices :
    ¬ View.KeySuffices (· = .natural) ∧ ¬ View.KeySuffices (· ≠ .natural) := by
  have hgraph : (catalog root).graph.Reachable := reachable_described reachable_root
  have hcreated : (catalog root).Created := created_catalog (by decide +kernel)
  have hrow : (catalog root).Complete row := by decide +kernel
  constructor
  · intro hall
    have hnode : ((catalog root).graph.node? 1).map (fun n => (n.kind, n.entity)) =
        some (.natural, profiles) := by decide +kernel
    obtain ⟨n, hn, hkind⟩ := Option.map_eq_some_iff.mp hnode
    obtain ⟨hkind, hentity⟩ := Prod.mk.inj hkind
    have hload := hall _ hgraph hcreated "profiles" (.natural 0 1 ["id", "name"]) n
      (by decide +kernel) hn hkind row hrow (by rw [hentity]; decide +kernel)
    exact absurd hload (by decide +kernel)
  · intro hall
    have hnode : ((catalog root).graph.node? 2).map (fun n => (n.kind, n.entity)) =
        some (.left, parts) := by decide +kernel
    obtain ⟨n, hn, hkind⟩ := Option.map_eq_some_iff.mp hnode
    obtain ⟨hkind, hentity⟩ := Prod.mk.inj hkind
    have hload := hall _ hgraph hcreated "parts" (.restricted 1 2) n
      (by decide +kernel) hn (by rw [hkind]; decide) row hrow (by rw [hentity]; decide +kernel)
    exact absurd hload (by decide +kernel)

/-- With the columns of the widgets shown as well, the parts can be loaded. -/
theorem load_catalog :
    (catalog (root.projectAll 0).graph).graph.Reachable ∧
      (catalog (root.projectAll 0).graph).Created ∧
      ((catalog (root.projectAll 0).graph).load "parts" row).isOk = true := by
  have hgraph : (catalog (root.projectAll 0).graph).graph.Reachable :=
    reachable_described (.projectAll _ reachable_root)
  have hcreated : (catalog (root.projectAll 0).graph).Created :=
    created_catalog (by decide +kernel)
  have hrelation : (catalog (root.projectAll 0).graph).relations.get? "parts" =
      some (.restricted 1 2) := by decide +kernel
  obtain ⟨l, hl, ha, hloads, _⟩ := View.load_of_reachable hgraph hcreated hrelation
  have hedge : l.edge = 1 := by
    rw [← Accessor.reference_ofLink, ← ha]
    rfl
  have hlink : ((catalog (root.projectAll 0).graph).graph.link? 1).map
      (fun l => (l.child, l.childNode.kind, l.childNode.entity, l.reference.pinned)) =
        some (2, .left, parts, [⟨.equals, ⟨2, "id"⟩, ⟨0, "part_id"⟩⟩]) := by decide +kernel
  rw [← hedge, hgraph.inv.mem_links.mp hl, Option.map_some, Option.some.injEq] at hlink
  simp only [Prod.mk.injEq] at hlink
  obtain ⟨hchild, hkind, hentity, hpinned⟩ := hlink
  refine ⟨hgraph, hcreated, (hloads row (by decide +kernel) ?_).1 ?_⟩
  · unfold View.ExposesKey
    rw [hchild, hentity]
    decide +kernel
  · -- the one equality has the part number of the widget on its other side
    intro name hname
    have hnot : l.childNode.kind ≠ .natural := by
      rw [hkind]
      decide
    obtain ⟨_, r, hr, opposite, hequates⟩ := hname.resolve_left fun h => hnot h.1
    rw [hpinned, List.mem_singleton] at hr
    have hfirst : l.FirstSeed name ⟨name, [opposite]⟩ :=
      .equated hnot (show l.reference.pinned = [] ++ r :: [] by rw [hpinned, hr]; rfl)
        (fun _ hb => absurd hb List.not_mem_nil) hequates
    refine ⟨opposite, ⟨_, hfirst, List.mem_singleton_self _⟩, ?_⟩
    have hsides := hequates.2
    rw [hr, hchild] at hsides
    rcases hsides with ⟨_, hopposite⟩ | ⟨hne, _⟩
    · rw [← hopposite]
      decide +kernel
    · exact absurd rfl hne

end Warehouse

end Joinery
