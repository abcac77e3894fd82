/-!
# Cutting text at a character

Three ways to cut a list of characters: at the first occurrence of a separator, which
takes the schema off a table name; at the last one, which takes the qualifier off a
column; and into the maximal runs that hold no separator at all, which are the words of
a kind of join. The first two lose nothing: put back together with the separator between
them, what they give is the text (`eq_of_cutFirst`, `eq_of_cutLast`).
-/

namespace Joinery.Text

/-- The text before and after the first `sep`, if `sep` occurs. -/
def cutFirst (sep : Char) : List Char → Option (List Char × List Char)
  | [] => none
  | c :: rest =>
    if c = sep then some ([], rest)
    else (cutFirst sep rest).map fun (before, after) => (c :: before, after)

/-- The text before and after the last `sep`, if `sep` occurs. -/
def cutLast (sep : Char) : List Char → Option (List Char × List Char)
  | [] => none
  | c :: rest =>
    match cutLast sep rest with
    | some (before, after) => some (c :: before, after)
    | none => if c = sep then some ([], rest) else none

/-- The maximal separator-free runs of a text, in order, where `run` is the run
that is still open. -/
def wordsFrom (isSep : Char → Bool) : List Char → List Char → List (List Char)
  | run, [] => if run.isEmpty then [] else [run]
  | run, c :: rest =>
    if isSep c then
      if run.isEmpty then wordsFrom isSep [] rest else run :: wordsFrom isSep [] rest
    else wordsFrom isSep (run ++ [c]) rest

/-- The maximal runs of characters that are no separators, in order. -/
def words (isSep : Char → Bool) (text : List Char) : List (List Char) :=
  wordsFrom isSep [] text

/-! ## What the cuts keep -/

/-- A cut takes nothing away but the separator, and what is before it has none. -/
theorem eq_of_cutFirst {sep : Char} {text before after : List Char}
    (h : cutFirst sep text = some (before, after)) :
    text = before ++ sep :: after ∧ sep ∉ before := by
  induction text generalizing before with
  | nil => simp [cutFirst] at h
  | cons c rest ih =>
    by_cases hc : c = sep
    · simp only [cutFirst, hc, if_true, Option.some.injEq, Prod.mk.injEq] at h
      obtain ⟨rfl, rfl⟩ := h
      simp [hc]
    · simp only [cutFirst, hc, if_false, Option.map_eq_some_iff, Prod.mk.injEq] at h
      obtain ⟨⟨b, a⟩, hcut, rfl, rfl⟩ := h
      obtain ⟨rfl, hb⟩ := ih hcut
      exact ⟨rfl, by simp [hb, Ne.symm hc]⟩

/-- Nothing is cut exactly where there is no separator. -/
theorem cutFirst_eq_none_iff {sep : Char} {text : List Char} :
    cutFirst sep text = none ↔ sep ∉ text := by
  induction text with
  | nil => simp [cutFirst]
  | cons c rest ih =>
    by_cases hc : c = sep
    · simp [cutFirst, hc]
    · simp [cutFirst, hc, ih, Ne.symm hc]

/-- A text is cut at the first separator it has. -/
theorem cutFirst_append_cons {sep : Char} {before : List Char} (h : sep ∉ before)
    (after : List Char) : cutFirst sep (before ++ sep :: after) = some (before, after) := by
  induction before with
  | nil => simp [cutFirst]
  | cons c before ih =>
    rw [List.mem_cons, not_or] at h
    simp [cutFirst, Ne.symm h.1, ih h.2]

/-- Only a text without the separator is not cut at its last one. -/
theorem cutLast_eq_none_iff {sep : Char} {text : List Char} :
    cutLast sep text = none ↔ sep ∉ text := by
  induction text with
  | nil => simp [cutLast]
  | cons c rest ih =>
    cases hrest : cutLast sep rest with
    | none =>
      have := ih.1 hrest
      by_cases hc : c = sep
      · simp [cutLast, hrest, hc]
      · simp [cutLast, hrest, hc, this, Ne.symm hc]
    | some cut =>
      have : sep ∈ rest := by
        refine Decidable.byContradiction fun hn => ?_
        rw [ih.2 hn] at hrest
        cases hrest
      simp [cutLast, hrest, this]

theorem eq_of_cutLast {sep : Char} {text before after : List Char}
    (h : cutLast sep text = some (before, after)) :
    text = before ++ sep :: after ∧ sep ∉ after := by
  induction text generalizing before with
  | nil => simp [cutLast] at h
  | cons c rest ih =>
    cases hrest : cutLast sep rest with
    | none =>
      by_cases hc : c = sep
      · simp only [cutLast, hrest, hc, if_true, Option.some.injEq, Prod.mk.injEq] at h
        obtain ⟨rfl, rfl⟩ := h
        exact ⟨by simp [hc], cutLast_eq_none_iff.1 hrest⟩
      · simp [cutLast, hrest, hc] at h
    | some cut =>
      obtain ⟨b, a⟩ := cut
      simp only [cutLast, hrest, Option.some.injEq, Prod.mk.injEq] at h
      obtain ⟨rfl, rfl⟩ := h
      obtain ⟨rfl, ha⟩ := ih hrest
      exact ⟨rfl, ha⟩

/-- A text is cut at the last separator it has. -/
theorem cutLast_append_cons {sep : Char} {after : List Char} (h : sep ∉ after)
    (before : List Char) : cutLast sep (before ++ sep :: after) = some (before, after) := by
  induction before with
  | nil => simp [cutLast, cutLast_eq_none_iff.2 h]
  | cons c before ih => simp [cutLast, ih]

end Joinery.Text
