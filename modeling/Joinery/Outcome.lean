/-!
# Outcomes of steps that can fail

Facts about steps done one after another, each of which may fail. The whole succeeds
when every step does; and a step done for each member of a list succeeds when it does
for all of them, with its outcomes in their order, and otherwise fails as it first fails.
-/

namespace Joinery

/-- An outcome without an error has a result. -/
theorem exists_of_isOk {ε α : Type} {outcome : Except ε α} (h : outcome.isOk = true) :
    ∃ a, outcome = .ok a := by
  cases outcome with
  | error e => exact nomatch h
  | ok a => exact ⟨a, rfl⟩

/-- A sequence succeeds if both of its steps do. -/
theorem bind_eq_ok_iff {ε α β : Type} {first : Except ε α} {next : α → Except ε β} {b : β} :
    first >>= next = .ok b ↔ ∃ a, first = .ok a ∧ next a = .ok b := by
  cases first with
  | error e => exact ⟨nofun, nofun⟩
  | ok a =>
    constructor
    · exact fun h => ⟨a, rfl, h⟩
    · intro hex
      obtain ⟨_, ⟨⟩, h⟩ := hex
      exact h

/-- A sequence fails with the error of the first step that fails. -/
theorem bind_eq_error_iff {ε α β : Type} {first : Except ε α} {next : α → Except ε β} {e : ε} :
    first >>= next = .error e ↔ first = .error e ∨ ∃ a, first = .ok a ∧ next a = .error e := by
  cases first with
  | error d =>
    constructor
    · intro heq
      cases heq
      exact .inl rfl
    · intro hcases
      rcases hcases with ⟨⟨⟩⟩ | ⟨_, ⟨⟩, _⟩
      rfl
  | ok a =>
    constructor
    · exact fun h => .inr ⟨a, rfl, h⟩
    · intro hcases
      rcases hcases with ⟨⟨⟩⟩ | ⟨_, ⟨⟩, h⟩
      exact h

/-- What is read off a success does not matter to errors. -/
theorem map_mapError {ε ε' α β : Type} (outcome : Except ε α) (change : ε → ε') (read : α → β) :
    (outcome.mapError change).map read = (outcome.map read).mapError change := by
  cases outcome with
  | error e => rfl
  | ok a => rfl

/-- Changing the result leaves errors alone. -/
theorem map_eq_error_iff {ε α β : Type} {outcome : Except ε α} {read : α → β} {e : ε} :
    outcome.map read = .error e ↔ outcome = .error e := by
  cases outcome with
  | error d =>
    show (Except.error d : Except ε β) = .error e ↔ _
    rw [Except.error.injEq, Except.error.injEq]
  | ok a => exact ⟨nofun, nofun⟩

/-- Forgetting which result there was keeps whether there was one. -/
theorem map_const_eq_ok_iff {ε α β : Type} {outcome : Except ε α} {b : β} :
    (outcome.map fun _ => b) = .ok b ↔ ∃ a, outcome = .ok a := by
  cases outcome with
  | error d => exact ⟨nofun, nofun⟩
  | ok a => exact iff_of_true rfl ⟨a, rfl⟩

theorem map_forget {ε α β : Type} (outcome : Except ε α) (read : α → β) :
    (outcome.map read).map (fun _ => ()) = outcome.map fun _ => () := by
  cases outcome with
  | error e => rfl
  | ok a => rfl

/-- Running a step on every element of a list succeeds if each of them does, and collects the
results in order. -/
theorem mapM_eq_ok_iff {ε α β : Type} {step : α → Except ε β} {as : List α} {bs : List β} :
    as.mapM step = .ok bs ↔ as.map step = bs.map .ok := by
  induction as generalizing bs with
  | nil => cases bs <;> simp [pure, Except.pure]
  | cons a as ih =>
    rw [List.mapM_cons, bind_eq_ok_iff]
    cases bs with
    | nil => simp [bind_eq_ok_iff, pure, Except.pure]
    | cons b bs => simp [bind_eq_ok_iff, pure, Except.pure, ih]

/-- The first step that fails is what the whole fails with. -/
theorem mapM_eq_error_iff {ε α β : Type} {step : α → Except ε β} {as : List α} {e : ε} :
    as.mapM step = .error e ↔
      ∃ a, as.find? (fun a => !(step a).isOk) = some a ∧ step a = .error e := by
  induction as with
  | nil => simp [pure, Except.pure]
  | cons a as ih =>
    rw [List.mapM_cons, bind_eq_error_iff, List.find?_cons]
    cases ha : step a with
    | error d => simp [Except.isOk, Except.toBool, ha]
    | ok b =>
      simp only [Except.isOk, Except.toBool, Bool.not_true, reduceCtorEq, false_or,
        Except.ok.injEq, exists_eq_left', bind_eq_error_iff, ih]
      simp [pure, Except.pure]

/-- The steps before it have succeeded. -/
theorem mapM_eq_error_iff_append {ε α β : Type} {step : α → Except ε β} {as : List α} {e : ε} :
    as.mapM step = .error e ↔
      ∃ before a after, as = before ++ a :: after ∧ (∀ b ∈ before, ∃ c, step b = .ok c) ∧
        step a = .error e := by
  rw [mapM_eq_error_iff]
  constructor
  · rintro ⟨a, hfind, he⟩
    obtain ⟨_, before, after, heq, hbefore⟩ := List.find?_eq_some_iff_append.mp hfind
    refine ⟨before, a, after, heq, fun b hb => exists_of_isOk ?_, he⟩
    rw [← Bool.not_not (step b).isOk]
    exact hbefore b hb
  · rintro ⟨before, a, after, rfl, hbefore, he⟩
    refine ⟨a, List.find?_eq_some_iff_append.mpr ⟨?_, before, after, rfl, fun b hb => ?_⟩, he⟩
    · rw [he]
      rfl
    · obtain ⟨c, hc⟩ := hbefore b hb
      rw [hc]
      rfl

/-- A step can be run on a whole list exactly if it can be run on each element. -/
theorem exists_mapM_eq_ok_iff {ε α β : Type} {step : α → Except ε β} {as : List α} :
    (∃ bs, as.mapM step = .ok bs) ↔ ∀ a ∈ as, ∃ b, step a = .ok b := by
  constructor
  · rintro ⟨bs, hbs⟩ a ha
    have hstep : step a ∈ bs.map .ok := by
      rw [← mapM_eq_ok_iff.mp hbs]
      exact List.mem_map_of_mem ha
    obtain ⟨b, _, hb⟩ := List.mem_map.mp hstep
    exact ⟨b, hb.symm⟩
  · intro hall
    cases hbs : as.mapM step with
    | ok bs => exact ⟨bs, rfl⟩
    | error e =>
      obtain ⟨before, a, after, rfl, _, he⟩ := mapM_eq_error_iff_append.mp hbs
      obtain ⟨b, hb⟩ := hall a (List.mem_append_right _ (List.mem_cons_self ..))
      rw [he] at hb
      exact nomatch hb

/-- Where each step fails with another error, so does the whole. -/
theorem mapM_mapError {ε ε' α β : Type} {step : α → Except ε β} {step' : α → Except ε' β}
    {change : ε → ε'} {as : List α} (h : ∀ a ∈ as, step' a = (step a).mapError change) :
    as.mapM step' = (as.mapM step).mapError change := by
  induction as with
  | nil => rfl
  | cons a as ih =>
    rw [List.mapM_cons, List.mapM_cons, h a (List.mem_cons_self ..),
      ih fun b hb => h b (List.mem_cons_of_mem _ hb)]
    cases step a with
    | error e => rfl
    | ok b =>
      cases as.mapM step with
      | error e => rfl
      | ok bs => rfl

theorem length_eq_of_map_eq_map_ok {ε α β : Type} {step : α → Except ε β} {as : List α}
    {bs : List β} (h : as.map step = bs.map .ok) : as.length = bs.length := by
  have hlen := congrArg List.length h
  rw [List.length_map, List.length_map] at hlen
  exact hlen

/-- The results of a run are the results on its elements. -/
theorem mem_iff_of_map_eq_map_ok {ε α β : Type} {step : α → Except ε β} {as : List α}
    {bs : List β} (h : as.map step = bs.map .ok) {b : β} : b ∈ bs ↔ ∃ a ∈ as, step a = .ok b := by
  constructor
  · intro hb
    have hmem : (.ok b : Except ε β) ∈ as.map step := by
      rw [h]
      exact List.mem_map_of_mem hb
    exact List.mem_map.mp hmem
  · intro hex
    have hmem : (.ok b : Except ε β) ∈ bs.map .ok := by
      rw [← h]
      exact List.mem_map.mpr hex
    obtain ⟨other, hother, heq⟩ := List.mem_map.mp hmem
    rw [← Except.ok.inj heq]
    exact hother

/-- What the outcomes of steps have in common with the members is the same for both lists. -/
theorem map_eq_map_of_ok {ε α β γ : Type} {step : α → Except ε β} {f : α → γ} {g : β → γ}
    {as : List α} {bs : List β} (h : as.map step = bs.map .ok)
    (hstep : ∀ a b, step a = .ok b → g b = f a) : bs.map g = as.map f := by
  induction as generalizing bs with
  | nil =>
    rw [List.map_nil, eq_comm, List.map_eq_nil_iff] at h
    rw [h]
    rfl
  | cons a as ih =>
    cases bs with
    | nil => exact absurd h (by simp)
    | cons b bs =>
      rw [List.map_cons, List.map_cons, List.cons.injEq] at h
      rw [List.map_cons, List.map_cons, hstep a b h.1, ih h.2]

/-- Each outcome is the one of the member at its place. -/
theorem eq_ok_of_mem_zip {ε α β : Type} {step : α → Except ε β} {as : List α} {bs : List β}
    (h : as.map step = bs.map .ok) : ∀ p ∈ as.zip bs, step p.1 = .ok p.2 := by
  induction as generalizing bs with
  | nil =>
    intro p hp
    rw [List.zip_nil_left] at hp
    exact absurd hp (by simp)
  | cons a as ih =>
    cases bs with
    | nil => exact absurd h (by simp)
    | cons b bs =>
      rw [List.map_cons, List.map_cons, List.cons.injEq] at h
      intro p hp
      rw [List.zip_cons_cons] at hp
      rcases List.mem_cons.mp hp with rfl | hp
      · exact h.1
      · exact ih h.2 p hp

end Joinery
