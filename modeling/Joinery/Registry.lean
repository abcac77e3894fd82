/-!
# Registries

A registry holds one value per name, in ascending order of the names. The first claim
on a name keeps it: a later claim changes nothing.

A registry made by claims is sorted (`sorted_ofList`), and each name in it has the value
of its first claim (`get?_ofList`).

Projections, keys and the relations of a view are kept in ordered maps of this kind.
-/

namespace Joinery

/-- Values by name, in ascending order of the names. -/
structure Registry (α : Type) where
  entries : List (String × α)
  deriving Repr

/-- What is found for a name among names is that name. -/
theorem find?_beq_eq_some_iff {names : List String} {name found : String} :
    names.find? (· == name) = some found ↔ name ∈ names ∧ found = name := by
  constructor
  · intro hfind
    have hfound := List.find?_some hfind
    rw [beq_iff_eq] at hfound
    exact ⟨hfound ▸ List.mem_of_find?_eq_some hfind, hfound⟩
  · rintro ⟨hmem, rfl⟩
    cases hfind : names.find? (· == found) with
    | none => exact absurd (beq_self_eq_true found) (List.find?_eq_none.mp hfind found hmem)
    | some other =>
      have hother := List.find?_some hfind
      rw [beq_iff_eq] at hother
      rw [hother]

theorem mem_of_lookup_eq_some {α : Type} {entries : List (String × α)} {name : String} {value : α}
    (h : entries.lookup name = some value) : (name, value) ∈ entries := by
  obtain ⟨before, after, heq, _⟩ := List.lookup_eq_some_iff.mp h
  rw [heq]
  exact List.mem_append_right _ (List.mem_cons_self ..)

/-- Where names are distinct, looking one up finds each of its entries. -/
theorem lookup_eq_some_iff_mem {α : Type} {entries : List (String × α)} {name : String} {value : α}
    (h : (entries.map (·.1)).Nodup) :
    entries.lookup name = some value ↔ (name, value) ∈ entries := by
  induction entries with
  | nil => simp
  | cons entry rest ih =>
    obtain ⟨key, v⟩ := entry
    rw [List.map_cons, List.nodup_cons] at h
    rw [List.lookup_cons, List.mem_cons, Prod.mk.injEq]
    by_cases hk : name = key
    · have hrest : (name, value) ∉ rest := by
        intro hmem
        exact h.1 (List.mem_map.mpr ⟨_, hmem, hk⟩)
      simp [hk, eq_comm]
      intro hmem
      exact absurd (hk ▸ hmem) hrest
    · simp [hk, beq_eq_false_iff_ne.mpr hk, ih h.2]

namespace Registry

variable {α : Type}

def empty : Registry α :=
  ⟨[]⟩

/-- Entries with a value put in its place under a name, unless the name is there. -/
def claimIn (name : String) (value : α) : List (String × α) → List (String × α)
  | [] => [(name, value)]
  | (n, v) :: rest =>
    if name < n then (name, value) :: (n, v) :: rest
    else if name = n then (n, v) :: rest
    else (n, v) :: claimIn name value rest

/-- Puts a value under a name, unless the name is taken. -/
def claim (r : Registry α) (name : String) (value : α) : Registry α :=
  ⟨claimIn name value r.entries⟩

def get? (r : Registry α) (name : String) : Option α :=
  r.entries.lookup name

def holds (r : Registry α) (name : String) : Bool :=
  (r.get? name).isSome

def names (r : Registry α) : List String :=
  r.entries.map (·.1)

/-- All values, in the order of their names. -/
def values (r : Registry α) : List α :=
  r.entries.map (·.2)

def size (r : Registry α) : Nat :=
  r.entries.length

def isEmpty (r : Registry α) : Bool :=
  r.entries.isEmpty

/-- The registry after the claims of a list, in order. -/
def ofList (claims : List (String × α)) : Registry α :=
  claims.foldl (fun r (name, value) => r.claim name value) empty

/-! ## Order -/

/-- The names of a registry ascend strictly. -/
def Sorted (r : Registry α) : Prop :=
  r.entries.Pairwise fun a b => a.1 < b.1

theorem mem_claimIn {name : String} {value : α} {entries : List (String × α)} {p : String × α}
    (h : p ∈ claimIn name value entries) : p = (name, value) ∨ p ∈ entries := by
  induction entries with
  | nil => exact .inl (by simpa [claimIn] using h)
  | cons entry rest ih =>
    obtain ⟨n, v⟩ := entry
    simp only [claimIn] at h
    split at h
    · exact List.mem_cons.1 h
    · split at h
      · exact .inr h
      · rcases List.mem_cons.1 h with rfl | h
        · exact .inr (List.mem_cons_self ..)
        · exact (ih h).imp_right (List.mem_cons_of_mem _)

theorem sorted_empty : (empty : Registry α).Sorted :=
  List.Pairwise.nil

theorem Sorted.claim {r : Registry α} (h : r.Sorted) (name : String) (value : α) :
    (r.claim name value).Sorted := by
  obtain ⟨entries⟩ := r
  change (claimIn name value entries).Pairwise fun a b => a.1 < b.1
  change entries.Pairwise fun a b => a.1 < b.1 at h
  induction entries with
  | nil => simp [claimIn]
  | cons entry rest ih =>
    obtain ⟨n, v⟩ := entry
    obtain ⟨hn, hrest⟩ := List.pairwise_cons.1 h
    simp only [claimIn]
    split
    · next hlt =>
      refine List.pairwise_cons.2 ⟨fun p hp => ?_, h⟩
      rcases List.mem_cons.1 hp with rfl | hp
      · exact hlt
      · exact String.lt_trans hlt (hn p hp)
    · next hlt =>
      split
      · exact h
      · next hne =>
        refine List.pairwise_cons.2 ⟨fun p hp => ?_, ih hrest⟩
        rcases mem_claimIn hp with rfl | hp
        · exact Decidable.byContradiction fun hge =>
            hne (String.le_antisymm (String.not_lt.1 hge) (String.not_lt.1 hlt))
        · exact hn p hp

/-- Names ascend after any list of claims. -/
theorem sorted_ofList (claims : List (String × α)) : (ofList claims).Sorted := by
  suffices ∀ r : Registry α, r.Sorted →
      (claims.foldl (fun r (name, value) => r.claim name value) r).Sorted from
    this empty sorted_empty
  induction claims with
  | nil => exact fun _ h => h
  | cons c rest ih => exact fun r h => ih _ (h.claim c.1 c.2)

/-! ## Looking a name up -/

@[simp] theorem get?_empty (name : String) : (empty : Registry α).get? name = none := rfl

/-- A claim gives its own name the value unless it was taken, and leaves all other names alone. -/
theorem get?_claim {r : Registry α} (h : r.Sorted) (name other : String) (value : α) :
    (r.claim name value).get? other =
      if other = name then (r.get? name).or (some value) else r.get? other := by
  obtain ⟨entries⟩ := r
  change (claimIn name value entries).lookup other =
    if other = name then (entries.lookup name).or (some value) else entries.lookup other
  change entries.Pairwise fun a b => a.1 < b.1 at h
  induction entries with
  | nil => by_cases ho : other = name <;> simp [claimIn, ho]
  | cons entry rest ih =>
    obtain ⟨n, v⟩ := entry
    obtain ⟨hn, hrest⟩ := List.pairwise_cons.1 h
    by_cases hlt : name < n
    · have hne : name ≠ n := by
        intro heq
        subst heq
        exact String.lt_irrefl _ hlt
      have hnone : rest.lookup name = none := by
        rw [List.lookup_eq_none_iff]
        intro p hp
        have hp : name < p.1 := String.lt_trans hlt (hn p hp)
        have hne : name ≠ p.1 := fun e => String.lt_irrefl p.1 (by rwa [e] at hp)
        exact bne_iff_ne.2 hne
      by_cases ho : other = name
      · simp [claimIn, hlt, ho, List.lookup_cons, beq_eq_false_iff_ne.2 hne, hnone]
      · simp [claimIn, hlt, ho, List.lookup_cons, beq_eq_false_iff_ne.2 ho]
    · by_cases heq : name = n
      · subst heq
        by_cases ho : other = name <;> simp [claimIn, ho]
      · by_cases ho : other = n
        · subst ho
          simp [claimIn, hlt, heq, Ne.symm heq]
        · simp [claimIn, hlt, heq, List.lookup_cons, beq_eq_false_iff_ne.2 heq,
            beq_eq_false_iff_ne.2 ho, ih hrest]

/-- After a list of claims each name has the value of its first claim. -/
theorem get?_ofList (claims : List (String × α)) (name : String) :
    (ofList claims).get? name = claims.lookup name := by
  suffices ∀ r : Registry α, r.Sorted →
      (claims.foldl (fun r (name, value) => r.claim name value) r).get? name =
        (r.get? name).or (claims.lookup name) from
    (this empty sorted_empty).trans (by simp)
  induction claims with
  | nil => simp
  | cons c rest ih =>
    intro r h
    obtain ⟨first, value⟩ := c
    rw [List.foldl_cons, ih _ (h.claim first value), get?_claim h]
    by_cases hc : name = first
    · subst hc
      cases r.get? name <;> simp
    · simp [hc, List.lookup_cons, beq_eq_false_iff_ne.2 hc]

/-! ## What a registry holds -/

/-- A name is taken exactly if a value is found under it. -/
theorem mem_names_iff {r : Registry α} {name : String} :
    name ∈ r.names ↔ (r.get? name).isSome = true := by
  rw [names, get?, List.lookup_isSome_iff, List.mem_map]
  constructor
  · rintro ⟨entry, hentry, rfl⟩
    exact ⟨entry, hentry, beq_self_eq_true _⟩
  · rintro ⟨entry, hentry, hname⟩
    exact ⟨entry, hentry, (beq_iff_eq.mp hname).symm⟩

/-- No name is taken twice. -/
theorem Sorted.nodup_names {r : Registry α} (h : r.Sorted) : r.names.Nodup := by
  rw [names, List.Nodup, List.pairwise_map]
  refine h.imp ?_
  intro a b hlt heq
  exact String.lt_irrefl b.1 (by rw [heq] at hlt; exact hlt)

/-- After a list of claims the registry holds the first claim on each name and nothing else. -/
theorem mem_entries_ofList (claims : List (String × α)) (name : String) (value : α) :
    (name, value) ∈ (ofList claims).entries ↔ claims.lookup name = some value := by
  rw [← lookup_eq_some_iff_mem (sorted_ofList claims).nodup_names]
  show (ofList claims).get? name = some value ↔ _
  rw [get?_ofList]

/-- Only without claims does a registry stay empty. -/
theorem isEmpty_ofList (claims : List (String × α)) :
    (ofList claims).isEmpty = true ↔ claims = [] := by
  rw [isEmpty, List.isEmpty_iff]
  constructor
  · intro hnil
    cases claims with
    | nil => rfl
    | cons claim rest =>
      have hfirst : (claim :: rest).lookup claim.1 = some claim.2 := by
        rw [List.lookup_cons, beq_self_eq_true]
      rw [← mem_entries_ofList, hnil] at hfirst
      exact absurd hfirst (by simp)
  · intro hnil
    rw [hnil]
    rfl

/-! ## Values that are claimed under a name of their own -/

section Named

variable {name : α → String} {values : List α}

/-- The first of the values that go by its name. -/
def IsFirst (name : α → String) (values : List α) (v : α) : Prop :=
  ∃ earlier later, values = earlier ++ v :: later ∧ ∀ w ∈ earlier, name w ≠ name v

/-- The value found for a name is the first of those that go by it. -/
theorem find?_eq_some_iff_isFirst {n : String} {v : α} :
    values.find? (name · == n) = some v ↔ name v = n ∧ IsFirst name values v := by
  rw [List.find?_eq_some_iff_append, beq_iff_eq]
  constructor
  · rintro ⟨rfl, earlier, later, heq, hearlier⟩
    refine ⟨rfl, earlier, later, heq, fun w hw => ?_⟩
    have hother := hearlier w hw
    rw [Bool.not_eq_true', beq_eq_false_iff_ne] at hother
    exact hother
  · rintro ⟨rfl, earlier, later, heq, hearlier⟩
    refine ⟨rfl, earlier, later, heq, fun w hw => ?_⟩
    rw [Bool.not_eq_true', beq_eq_false_iff_ne]
    exact hearlier w hw

/-- Under a name stands the first value that goes by it. -/
theorem get?_ofList_map (n : String) :
    (ofList (values.map fun v => (name v, v))).get? n = values.find? (name · == n) := by
  rw [get?_ofList]
  induction values with
  | nil => rfl
  | cons v rest ih => rw [List.map_cons, List.lookup_cons, List.find?_cons, ih, BEq.comm]

/-- Under a name stands the first value that goes by it, and no other. -/
theorem mem_entries_ofList_map {n : String} {v : α} :
    (n, v) ∈ (ofList (values.map fun v => (name v, v))).entries ↔
      values.find? (name · == n) = some v := by
  rw [← get?_ofList_map, mem_entries_ofList, get?_ofList]

/-- Among the values, those that come first under their names stay and no others. -/
theorem mem_values_ofList_map {v : α} :
    v ∈ (ofList (values.map fun v => (name v, v))).values ↔
      values.find? (name · == name v) = some v := by
  rw [Registry.values, List.mem_map]
  constructor
  · intro ⟨entry, hentry, hv⟩
    have hfind := mem_entries_ofList_map.mp (show (entry.1, entry.2) ∈ _ from hentry)
    have hname := List.find?_some hfind
    rw [beq_iff_eq] at hname
    rw [← hv, hname]
    exact hfind
  · intro hfind
    exact ⟨(name v, v), mem_entries_ofList_map.mpr hfind, rfl⟩

/-- Every value stands under its own name. -/
theorem names_ofList_map :
    (ofList (values.map fun v => (name v, v))).names =
      (ofList (values.map fun v => (name v, v))).values.map name := by
  rw [names, Registry.values, List.map_map]
  apply List.map_congr_left
  intro entry hentry
  have hname :=
    List.find?_some (mem_entries_ofList_map.mp (show (entry.1, entry.2) ∈ _ from hentry))
  rw [beq_iff_eq] at hname
  exact hname.symm

end Named

end Registry

end Joinery
