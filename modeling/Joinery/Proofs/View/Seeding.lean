import Joinery.Proofs.View.Loading
import Mathlib.Data.List.Find

/-!
# What a related record is seeded with

Where the value of a column that identifies the record behind a reference stands in a row is said by
`View.Gives`, apart from how a record is loaded: it is read under the first output of the view that
is taken from the right column (`View.FirstOutput`).

`valueFor?_eq_some_iff` says that loading reads the same values. A seed counts if it is the first
for its field, and so the seeds that count give each field once (`nodup_counting`) and in the order
in which the fields are first named (`find?_map_field_counting`). `seeded_of_reachable` puts this
together: a record that is loaded is never short of a field, and a record that is not loaded is
refused for the first field without a value.
-/

namespace Joinery

namespace View

/-- The row gives the record behind a reference this value for a field. -/
inductive Gives (v : View) (row : Record) (l : Link) (name : String) (value : Value) : Prop
  -- a shared column is the parent's, while the row has a value for that
  | parent : l.childNode.kind = .natural → l.Shares name →
      v.Reads row ⟨l.parent, name⟩ value → Gives v row l name value
  | child : l.childNode.kind = .natural → l.Shares name →
      (∀ other, ¬ v.Reads row ⟨l.parent, name⟩ other) →
      v.Reads row ⟨l.child, name⟩ value → Gives v row l name value
  -- of several equalities for a field the first counts
  | opposite {before after : List PinnedRestriction} {r : PinnedRestriction} {c : PinnedColumn} :
      l.childNode.kind ≠ .natural → l.reference.pinned = before ++ r :: after →
      (∀ b ∈ before, ∀ other, ¬ b.Equates l.child name other) → r.Equates l.child name c →
      v.Reads row c value → Gives v row l name value
  -- a key column that the reference does not carry is the target's own
  | own : ¬ l.Identifies name → name ∈ l.childNode.entity.primaryKey →
      v.Reads row ⟨l.child, name⟩ value → Gives v row l name value

/-- A seed with one column has the value that is read for it. -/
theorem valueOf?_singleton {v : View} {row : Record} {field : String} {c : PinnedColumn}
    {value : Value} : v.valueOf? row ⟨field, [c]⟩ = some value ↔ v.Reads row c value := by
  rw [valueOf?, List.findSome?_singleton, reads_iff]

/-- The parent's column goes first. -/
theorem valueOf?_sharedSeed {v : View} {row : Record} {l : Link} {name : String} {value : Value} :
    v.valueOf? row (l.sharedSeed name) = some value ↔
      v.Reads row ⟨l.parent, name⟩ value ∨
        (∀ other, ¬ v.Reads row ⟨l.parent, name⟩ other) ∧ v.Reads row ⟨l.child, name⟩ value := by
  have hseed : v.valueOf? row (l.sharedSeed name) =
      ((v.outputOf? ⟨l.parent, name⟩).bind row.get?).or
        ((v.outputOf? ⟨l.child, name⟩).bind row.get?) := by
    rw [valueOf?, Link.sharedSeed, List.findSome?_cons, List.findSome?_singleton]
    cases (v.outputOf? ⟨l.parent, name⟩).bind row.get? with
    | none => rfl
    | some value => rfl
  rw [hseed, Option.or_eq_some_iff, Option.eq_none_iff_forall_ne_some]
  simp only [reads_iff, ne_eq]

/-- The value that the row has for the seed of a field that counts. -/
def valueFor? (v : View) (row : Record) (l : Link) (name : String) : Option Value :=
  ((v.seedsOf l).find? (·.field == name)).bind (v.valueOf? row)

/-- Loading reads the values that the row gives. -/
theorem valueFor?_eq_some_iff {v : View} (h : v.graph.Inv) {l : Link} (hl : l ∈ v.graph.links)
    {row : Record} {name : String} {value : Value} :
    v.valueFor? row l name = some value ↔ v.Gives row l name value := by
  rw [valueFor?, Option.bind_eq_some_iff]
  simp only [find?_seedsOf_eq_some_iff h hl]
  constructor
  · intro hread
    obtain ⟨seed, hfirst, hvalue⟩ := hread
    cases hfirst with
    | shared hkind hshared =>
      rcases valueOf?_sharedSeed.mp hvalue with hparent | ⟨hnone, hchild⟩
      · exact .parent hkind hshared hparent
      · exact .child hkind hshared hnone hchild
    | equated hkind hpinned hbefore hequates =>
      exact .opposite hkind hpinned hbefore hequates (valueOf?_singleton.mp hvalue)
    | own hnot hkey => exact .own hnot hkey (valueOf?_singleton.mp hvalue)
  · intro hgives
    cases hgives with
    | parent hkind hshared hparent =>
      exact ⟨_, .shared hkind hshared, valueOf?_sharedSeed.mpr (.inl hparent)⟩
    | child hkind hshared hnone hchild =>
      exact ⟨_, .shared hkind hshared, valueOf?_sharedSeed.mpr (.inr ⟨hnone, hchild⟩)⟩
    | opposite hkind hpinned hbefore hequates hreads =>
      exact ⟨_, .equated hkind hpinned hbefore hequates, valueOf?_singleton.mpr hreads⟩
    | own hnot hkey hreads => exact ⟨_, .own hnot hkey, valueOf?_singleton.mpr hreads⟩

/-! ## The fields of a record -/

/-- No field counts twice. -/
theorem nodup_counting (taken : List String) (seeds : List Seed) :
    ((counting taken seeds).map (·.field)).Nodup := by
  induction seeds generalizing taken with
  | nil => exact List.nodup_nil
  | cons seed rest ih =>
    rw [counting]
    split
    next => exact ih taken
    next =>
      rw [List.map_cons, List.nodup_cons]
      refine ⟨?_, ih _⟩
      intro hmem
      obtain ⟨other, hother, hfield⟩ := List.mem_map.mp hmem
      apply (mem_counting.mp hother).1
      rw [hfield]
      exact List.mem_append_right _ (List.mem_singleton_self _)

/-- No field is lost with the seeds that do not count. -/
theorem mem_map_field_counting {seeds : List Seed} {name : String} :
    name ∈ (counting [] seeds).map (·.field) ↔ name ∈ seeds.map (·.field) := by
  constructor
  · intro hmem
    obtain ⟨seed, hseed, hfield⟩ := List.mem_map.mp hmem
    exact List.mem_map.mpr ⟨seed, List.mem_of_find?_eq_some (mem_counting.mp hseed).2, hfield⟩
  · intro hmem
    cases hfind : seeds.find? (·.field == name) with
    | none => exact absurd hmem (find?_field_eq_none_iff.mp hfind)
    | some seed =>
      have hfield := List.find?_some hfind
      rw [beq_iff_eq] at hfield
      refine List.mem_map.mpr ⟨seed, mem_counting.mpr ⟨List.not_mem_nil, ?_⟩, hfield⟩
      rw [hfield]
      exact hfind

/-- A seed that counts gives its field the value. -/
theorem valueFor?_of_mem_counting {v : View} {row : Record} {l : Link} {seed : Seed}
    (h : seed ∈ counting [] (v.seedsOf l)) :
    v.valueFor? row l seed.field = v.valueOf? row seed := by
  rw [valueFor?, (mem_counting.mp h).2, Option.bind_some]

/-- A field has a value exactly if something gives it one. -/
theorem valueFor?_isSome_iff {v : View} (h : v.graph.Inv) {l : Link} (hl : l ∈ v.graph.links)
    {row : Record} {name : String} :
    (v.valueFor? row l name).isSome = true ↔ ∃ value, v.Gives row l name value := by
  rw [Option.isSome_iff_exists]
  exact exists_congr fun value => valueFor?_eq_some_iff h hl

/-- The first seed without a value among those that count is for the first field without one. -/
theorem find?_map_field_counting (v : View) (row : Record) (l : Link) :
    ((counting [] (v.seedsOf l)).find? fun seed => !(v.valueOf? row seed).isSome).map (·.field) =
      ((v.seedsOf l).map (·.field)).find? fun name => !(v.valueFor? row l name).isSome := by
  have hcounts : (counting [] (v.seedsOf l)).find? (fun seed => !(v.valueOf? row seed).isSome) =
      (counting [] (v.seedsOf l)).find? fun seed => !(v.valueFor? row l seed.field).isSome := by
    refine List.find?_congr fun seed hseed => ?_
    rw [valueFor?_of_mem_counting hseed]
  have hfirst : (counting [] (v.seedsOf l)).find?
        (fun seed => !(v.valueFor? row l seed.field).isSome) =
      (v.seedsOf l).find? fun seed => !(v.valueFor? row l seed.field).isSome := by
    refine find?_counting (fun _ _ _ => List.not_mem_nil) ?_
    intro s _ t _ hlacks hfield
    rw [hfield]
    exact hlacks
  rw [hcounts, hfirst, List.find?_map]
  rfl

/-- A seed is read as its field with its value. -/
theorem readSeed_eq_ok_iff {v : View} {relation : String} {row : Record} {seed : Seed}
    {field : String × Value} :
    v.readSeed relation row seed = .ok field ↔
      seed.field = field.1 ∧ v.valueOf? row seed = some field.2 := by
  unfold readSeed
  cases v.valueOf? row seed with
  | none => simp
  | some value => simp [Prod.ext_iff]

/-- A field and its value are read for a reference exactly if the row gives it this value. -/
theorem mem_fields_iff {v : View} (h : v.graph.Inv) {l : Link} (hl : l ∈ v.graph.links)
    {relation : String} {row : Record} {fields : List (String × Value)}
    (hfields : (counting [] (v.seedsOf l)).map (v.readSeed relation row) = fields.map .ok)
    {name : String} {value : Value} :
    (name, value) ∈ fields ↔ v.Gives row l name value := by
  rw [mem_iff_of_map_eq_map_ok hfields, ← valueFor?_eq_some_iff h hl]
  constructor
  · intro ⟨seed, hseed, hok⟩
    obtain ⟨hname, hvalue⟩ := readSeed_eq_ok_iff.mp hok
    rw [← show seed.field = name from hname, valueFor?_of_mem_counting hseed]
    exact hvalue
  · intro hvalue
    obtain ⟨seed, hseed, hread⟩ := Option.bind_eq_some_iff.mp hvalue
    have hname := List.find?_some hseed
    rw [beq_iff_eq] at hname
    rw [← hname] at hseed
    exact ⟨seed, mem_counting.mpr ⟨List.not_mem_nil, hseed⟩, readSeed_eq_ok_iff.mpr ⟨hname, hread⟩⟩

/-- A record is what the reference leads to from the row: it has the fields that identify it and
no others, each once and with the value that the row gives it. -/
structure Seeded (v : View) (l : Link) (row record : Record) : Prop where
  entity : record.entity = l.childNode.entity
  database : record.database = row.database
  distinct : (record.values.map (·.1)).Nodup
  fields : ∀ name, name ∈ record.values.map (·.1) ↔
    l.Identifies name ∨ name ∈ l.childNode.entity.primaryKey
  columns : ∀ name ∈ record.values.map (·.1), record.entity.hasColumn name = true
  key : ∀ name ∈ record.entity.primaryKey, (record.get? name).isSome = true
  values : ∀ name value, record.get? name = some value ↔ v.Gives row l name value

/-- A record that was loaded has exactly the fields that are called for, each with its value. -/
theorem seeded_of_load {v : View} (h : v.graph.Inv) {relation : String} {l : Link}
    (hl : l ∈ v.graph.links) (ha : v.relations.get? relation = some (.ofLink l))
    {row record : Record} (hload : v.load relation row = .ok record) :
    v.Seeded l row record := by
  rw [load_eq h hl ha] at hload
  cases hread : (counting [] (v.seedsOf l)).mapM (v.readSeed relation row) with
  | error e =>
    rw [hread] at hload
    exact nomatch hload
  | ok fields =>
    rw [hread] at hload
    have hfields := mapM_eq_ok_iff.mp hread
    have hnames : fields.map (·.1) = (counting [] (v.seedsOf l)).map (·.field) :=
      map_eq_map_of_ok hfields fun seed field hok => (readSeed_eq_ok_iff.mp hok).1.symm
    have hdistinct : (fields.map (·.1)).Nodup := by
      rw [hnames]
      exact nodup_counting [] _
    have hmem (name : String) : name ∈ fields.map (·.1) ↔ name ∈ l.fieldNames := by
      rw [hnames, mem_map_field_counting, map_field_seedsOf h hl]
    have hvalues := Record.values_ofFields l.childNode.entity row.database hdistinct
    have hget (name : String) (value : Value) :
        record.get? name = some value ↔ (name, value) ∈ fields := by
      rw [← Except.ok.inj hload, Record.get?, hvalues, lookup_eq_some_iff_mem hdistinct]
    rw [← Except.ok.inj hload] at hget ⊢
    refine ⟨rfl, rfl, ?_, ?_, ?_, ?_, ?_⟩
    · rw [hvalues]
      exact hdistinct
    · intro name
      rw [hvalues, hmem, Link.mem_fieldNames]
    · intro name hname
      rw [hvalues, hmem] at hname
      exact h.hasColumn_of_mem_fieldNames hl hname
    · intro name hname
      have hfield := (hmem name).mpr (Link.mem_fieldNames.mpr (.inr hname))
      obtain ⟨⟨_, value⟩, hentry, rfl⟩ := List.mem_map.mp hfield
      rw [(hget _ value).mpr hentry]
      rfl
    · intro name value
      rw [hget, mem_fields_iff h hl hfields]

/-- A record is loaded when no field is short of a value. -/
theorem load_isOk_iff_gives {v : View} (h : v.graph.Inv) {relation : String} {l : Link}
    (hl : l ∈ v.graph.links) (ha : v.relations.get? relation = some (.ofLink l)) {row : Record} :
    (v.load relation row).isOk = true ↔
      ∀ name ∈ l.fieldNames, ∃ value, v.Gives row l name value := by
  rw [load_isOk_iff h hl ha, ← map_field_seedsOf h hl]
  simp only [← valueFor?_isSome_iff h hl]
  constructor
  · intro hall name hname
    obtain ⟨seed, hseed, rfl⟩ := List.mem_map.mp (mem_map_field_counting.mpr hname)
    rw [valueFor?_of_mem_counting hseed]
    exact hall seed hseed
  · intro hall seed hseed
    rw [← valueFor?_of_mem_counting hseed]
    exact hall _ (mem_map_field_counting.mp (List.mem_map_of_mem hseed))

/-- Otherwise the first field that is short of one is named. -/
theorem load_eq_error_iff_gives {v : View} (h : v.graph.Inv) {relation : String} {l : Link}
    (hl : l ∈ v.graph.links) (ha : v.relations.get? relation = some (.ofLink l)) {row : Record}
    {e : ViewError} :
    v.load relation row = .error e ↔ ∃ before name after, l.fieldNames = before ++ name :: after ∧
      (∀ n ∈ before, ∃ value, v.Gives row l n value) ∧ (∀ value, ¬ v.Gives row l name value) ∧
      e = .missingValue relation name := by
  have hfirst : v.load relation row = .error e ↔ ∃ name,
      l.fieldNames.find? (fun name => !(v.valueFor? row l name).isSome) = some name ∧
      e = .missingValue relation name := by
    rw [load_eq_error_iff h hl ha, ← map_field_seedsOf h hl, ← find?_map_field_counting]
    constructor
    · intro ⟨seed, hseed, he⟩
      exact ⟨seed.field, by rw [hseed]; rfl, he⟩
    · intro ⟨name, hname, he⟩
      obtain ⟨seed, hseed, rfl⟩ := Option.map_eq_some_iff.mp hname
      exact ⟨seed, hseed, he⟩
  have hlacks (name : String) :
      (!(v.valueFor? row l name).isSome) = true ↔ ∀ value, ¬ v.Gives row l name value := by
    rw [Bool.not_eq_true', ← Bool.not_eq_true, valueFor?_isSome_iff h hl, not_exists]
  rw [hfirst]
  constructor
  · intro ⟨name, hname, he⟩
    obtain ⟨hnone, before, after, hnames, hbefore⟩ := List.find?_eq_some_iff_append.mp hname
    refine ⟨before, name, after, hnames, ?_, (hlacks name).mp hnone, he⟩
    intro n hn
    have hsome := hbefore n hn
    rw [Bool.not_not, valueFor?_isSome_iff h hl] at hsome
    exact hsome
  · intro ⟨before, name, after, hnames, hbefore, hnone, he⟩
    refine ⟨name, List.find?_eq_some_iff_append.mpr
      ⟨(hlacks name).mpr hnone, before, after, hnames, ?_⟩, he⟩
    intro n hn
    rw [Bool.not_not, valueFor?_isSome_iff h hl]
    exact hbefore n hn

/-- From any row a relation of the view leads to a record of the target that is seeded in full, or
to the first field for which the row has no value. A name that is no relation is refused as such,
and nothing else is. -/
theorem seeded_of_reachable {v : View} (h : v.graph.Reachable) (hv : v.Created) (relation : String)
    (row : Record) :
    (v.load relation row = .error (.unknownRelation v.name relation) ↔
      v.relations.get? relation = none) ∧
    ∀ a, v.relations.get? relation = some a → ∃ l ∈ v.graph.links, a = .ofLink l ∧
      v.graph.node? a.target = some l.childNode ∧
      (∀ record, v.load relation row = .ok record → v.Seeded l row record) ∧
      ((v.load relation row).isOk = true ↔
        ∀ name, l.Identifies name ∨ name ∈ l.childNode.entity.primaryKey →
          ∃ value, v.Gives row l name value) ∧
      ∀ e, v.load relation row = .error e ↔
        ∃ before name after, l.fieldNames = before ++ name :: after ∧
          (∀ n ∈ before, ∃ value, v.Gives row l n value) ∧ (∀ value, ¬ v.Gives row l name value) ∧
          e = .missingValue relation name := by
  constructor
  · constructor
    · intro hunknown
      cases ha : v.relations.get? relation with
      | none => rfl
      | some a =>
        obtain ⟨l, hl, rfl, _⟩ := link_of_relation hv ha
        obtain ⟨_, _, he⟩ := (load_eq_error_iff h.inv hl ha).mp hunknown
        exact nomatch he
    · intro hnone
      unfold load
      rw [hnone]
  · intro a ha
    obtain ⟨l, hl, rfl, _⟩ := link_of_relation hv ha
    refine ⟨l, hl, rfl, ?_, fun record => seeded_of_load h.inv hl ha, ?_,
      fun e => load_eq_error_iff_gives h.inv hl ha⟩
    · rw [Accessor.target_ofLink]
      exact (h.inv.linkAt (h.inv.mem_links.mp hl)).childNode
    · rw [load_isOk_iff_gives h.inv hl ha]
      simp only [Link.mem_fieldNames]

end View

namespace Warehouse

/-- A row in which a part goes by one number as the widget has it and by another as it is shown. -/
def mismatch : Record :=
  Record.ofFields widgets
    [("id", .integer 1), ("part_id", .integer 7), ("part", .integer 8)] none

/-- The equality comes before the key, so the widget's number is taken. -/
theorem seeded_parts :
    (catalog (root.projectAll 0).graph).graph.Reachable ∧
      (catalog (root.projectAll 0).graph).Created ∧
      ∃ l ∈ (catalog (root.projectAll 0).graph).graph.links, ∃ record,
        (catalog (root.projectAll 0).graph).load "parts" mismatch = .ok record ∧
        (catalog (root.projectAll 0).graph).Seeded l mismatch record ∧
        record.get? "id" = some (.integer 7) := by
  have hgraph : (catalog (root.projectAll 0).graph).graph.Reachable :=
    reachable_described (.projectAll _ reachable_root)
  have hcreated : (catalog (root.projectAll 0).graph).Created :=
    created_catalog (by decide +kernel)
  obtain ⟨l, hl, _, _, hseeded, _⟩ := (View.seeded_of_reachable hgraph hcreated "parts" mismatch).2
    (.restricted 1 2) (by decide +kernel)
  have hvalue : ((catalog (root.projectAll 0).graph).load "parts" mismatch).toOption.map
      (·.get? "id") = some (some (.integer 7)) := by decide +kernel
  obtain ⟨record, hrecord, hid⟩ := Option.map_eq_some_iff.mp hvalue
  have hload : (catalog (root.projectAll 0).graph).load "parts" mismatch = .ok record := by
    cases hresult : (catalog (root.projectAll 0).graph).load "parts" mismatch with
    | error e =>
      rw [hresult] at hrecord
      exact nomatch hrecord
    | ok other =>
      rw [hresult] at hrecord
      rw [Option.some.inj hrecord]
  exact ⟨hgraph, hcreated, l, hl, record, hload, hseeded record hload, hid⟩

end Warehouse

end Joinery
