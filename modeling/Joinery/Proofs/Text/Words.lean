import Joinery.Text.Split

/-!
# The words of a text

Cutting a text into words scans it once, with the word that is still open beside it. What comes out
is said here without a scan: a text `Runs` through words if it consists of them and of separators
around them, with at least one separator between two, so that no word could be longer. There is
exactly one such list of words for a text, and the scan finds it (`words_eq_iff`).

Everything about the scan follows from one equation: it starts anew behind a separator
(`wordsFrom_append_separator`). So separators at the ends of a text do not matter, nor how many
there are between two words, or which.

The scan is `Text.words`.
-/

namespace Joinery.Text

variable {isSep : Char → Bool}

/-- The text holds nothing but separators. -/
def AllSeparators (isSep : Char → Bool) (text : List Char) : Prop :=
  ∀ c ∈ text, isSep c = true

instance (isSep : Char → Bool) (text : List Char) : Decidable (AllSeparators isSep text) :=
  List.decidableBAll _ text

/-- The text is one word: it is not empty and holds no separator. -/
def IsRun (isSep : Char → Bool) (text : List Char) : Prop :=
  text ≠ [] ∧ ∀ c ∈ text, isSep c = false

/-- The text consists of these words, in order, and of separators. A word begins at the beginning of
the text or behind a separator, and ends at the end or before one. -/
inductive Runs (isSep : Char → Bool) : List Char → List (List Char) → Prop
  | none {gap : List Char} : AllSeparators isSep gap → Runs isSep gap []
  | last {gap word : List Char} : AllSeparators isSep gap → IsRun isSep word →
      Runs isSep (gap ++ word) [word]
  | cons {gap word rest : List Char} {c : Char} {words : List (List Char)} :
      AllSeparators isSep gap → IsRun isSep word → isSep c = true → Runs isSep rest words →
      Runs isSep (gap ++ word ++ c :: rest) (word :: words)

/-! ## The scan -/

/-- The scan starts anew behind a separator. -/
theorem wordsFrom_append_separator {c : Char} (hc : isSep c = true) (run before after : List Char) :
    wordsFrom isSep run (before ++ c :: after) =
      wordsFrom isSep run before ++ wordsFrom isSep [] after := by
  induction before generalizing run with
  | nil =>
    simp only [List.nil_append, wordsFrom, hc, if_true]
    split
    next => rfl
    next => rfl
  | cons d before ih =>
    rw [List.cons_append, wordsFrom, wordsFrom]
    split
    next =>
      split
      next => exact ih []
      next => rw [ih, List.cons_append]
    next => exact ih (run ++ [d])

/-- A word that goes on is not cut. -/
theorem wordsFrom_append_run {word : List Char} (hword : ∀ c ∈ word, isSep c = false)
    (run rest : List Char) :
    wordsFrom isSep run (word ++ rest) = wordsFrom isSep (run ++ word) rest := by
  induction word generalizing run with
  | nil => rw [List.nil_append, List.append_nil]
  | cons c word ih =>
    rw [List.cons_append, wordsFrom, hword c (List.mem_cons_self ..), if_neg Bool.false_ne_true,
      ih fun d hd => hword d (List.mem_cons_of_mem _ hd), List.append_assoc]
    rfl

/-- A separator cuts a text into two that have their words for themselves. -/
theorem words_append_separator {c : Char} (hc : isSep c = true) (before after : List Char) :
    words isSep (before ++ c :: after) = words isSep before ++ words isSep after :=
  wordsFrom_append_separator hc [] before after

theorem words_of_allSeparators {gap : List Char} (h : AllSeparators isSep gap) :
    words isSep gap = [] := by
  induction gap with
  | nil => rfl
  | cons c gap ih =>
    have hrest := words_append_separator (h c (List.mem_cons_self ..)) [] gap
    rw [List.nil_append] at hrest
    rw [hrest, ih fun d hd => h d (List.mem_cons_of_mem _ hd)]
    rfl

/-- Any separators between two texts part their words. -/
theorem words_append_gap {gap : List Char} (hne : gap ≠ []) (h : AllSeparators isSep gap)
    (before after : List Char) :
    words isSep (before ++ gap ++ after) = words isSep before ++ words isSep after := by
  induction gap generalizing before with
  | nil => exact absurd rfl hne
  | cons c gap ih =>
    have hc := h c (List.mem_cons_self ..)
    rw [List.append_assoc, List.cons_append, words_append_separator hc]
    cases gap with
    | nil => rfl
    | cons d gap =>
      have hgap := ih (List.cons_ne_nil d gap) (fun x hx => h x (List.mem_cons_of_mem _ hx)) []
      rw [List.nil_append] at hgap
      rw [hgap]
      rfl

theorem words_gap_append {gap : List Char} (h : AllSeparators isSep gap) (text : List Char) :
    words isSep (gap ++ text) = words isSep text := by
  by_cases hne : gap = []
  · rw [hne, List.nil_append]
  · exact words_append_gap hne h [] text

theorem words_append_trailing {gap : List Char} (h : AllSeparators isSep gap) (text : List Char) :
    words isSep (text ++ gap) = words isSep text := by
  by_cases hne : gap = []
  · rw [hne, List.append_nil]
  · have hparted := words_append_gap hne h text []
    rw [List.append_nil] at hparted
    rw [hparted]
    exact List.append_nil _

theorem words_of_isRun {word : List Char} (h : IsRun isSep word) : words isSep word = [word] := by
  have hscan := wordsFrom_append_run h.2 [] []
  rw [List.append_nil, List.nil_append, wordsFrom, if_neg] at hscan
  · exact hscan
  · rw [List.isEmpty_iff]
    exact h.1

/-- A change of characters that keeps separators and all others apart goes through to the words. -/
theorem words_map {change : Char → Char} (h : ∀ c, isSep (change c) = isSep c) (text : List Char) :
    words isSep (text.map change) = (words isSep text).map (List.map change) := by
  have hfrom (run : List Char) : wordsFrom isSep (run.map change) (text.map change) =
      (wordsFrom isSep run text).map (List.map change) := by
    induction text generalizing run with
    | nil => cases run <;> rfl
    | cons c rest ih =>
      have hopen := ih (run ++ [c])
      rw [List.map_append] at hopen
      rw [List.map_cons, wordsFrom, wordsFrom, h c, List.isEmpty_map]
      split
      next =>
        split
        next => exact ih []
        next => exact congrArg (run.map change :: ·) (ih [])
      next => exact hopen
  exact hfrom []

/-! ## The words that a text runs through -/

/-- The words of a text are its maximal runs. -/
theorem Runs.words_eq {text : List Char} {ws : List (List Char)} (h : Runs isSep text ws) :
    words isSep text = ws := by
  induction h with
  | none hgap => exact words_of_allSeparators hgap
  | last hgap hword => rw [words_gap_append hgap, words_of_isRun hword]
  | cons hgap hword hc _ ih =>
    rw [words_append_separator hc, words_gap_append hgap, words_of_isRun hword, ih]
    rfl

theorem Runs.cons_separator {c : Char} (hc : isSep c = true) {text : List Char}
    {ws : List (List Char)} (h : Runs isSep text ws) : Runs isSep (c :: text) ws := by
  have hmore {gap : List Char} (hgap : AllSeparators isSep gap) : AllSeparators isSep (c :: gap) :=
    List.forall_mem_cons.mpr ⟨hc, hgap⟩
  cases h with
  | none hgap => exact .none (hmore hgap)
  | last hgap hword => exact .last (hmore hgap) hword
  | cons hgap hword hd hrest => exact .cons (hmore hgap) hword hd hrest

/-- The scan finds the runs, the first of which it may have begun already. -/
theorem runs_wordsFrom {run : List Char} (hrun : ∀ c ∈ run, isSep c = false) (text : List Char) :
    Runs isSep (run ++ text) (wordsFrom isSep run text) := by
  have hnone : AllSeparators isSep [] := fun _ hc => absurd hc List.not_mem_nil
  induction text generalizing run with
  | nil =>
    rw [wordsFrom, List.append_nil]
    split
    next hempty =>
      rw [List.isEmpty_iff.mp hempty]
      exact .none hnone
    next hopen => exact .last hnone ⟨fun h => hopen (List.isEmpty_iff.mpr h), hrun⟩
  | cons c rest ih =>
    have hrest : Runs isSep rest (wordsFrom isSep [] rest) :=
      ih fun d hd => absurd hd List.not_mem_nil
    rw [wordsFrom]
    split
    next hc =>
      split
      next hempty =>
        rw [List.isEmpty_iff.mp hempty]
        exact hrest.cons_separator hc
      next hopen => exact .cons hnone ⟨fun h => hopen (List.isEmpty_iff.mpr h), hrun⟩ hc hrest
    next hc =>
      have hlonger : ∀ d ∈ run ++ [c], isSep d = false := by
        intro d hd
        rcases List.mem_append.mp hd with hd | hd
        · exact hrun d hd
        · rw [List.mem_singleton.mp hd]
          exact Bool.not_eq_true _ ▸ hc
      have hmore := ih hlonger
      rw [List.append_assoc] at hmore
      exact hmore

/-- Every text has its words as maximal runs. -/
theorem runs_words (isSep : Char → Bool) (text : List Char) :
    Runs isSep text (words isSep text) :=
  runs_wordsFrom (fun _ hc => absurd hc List.not_mem_nil) text

/-- The words of a text are the ones that it runs through. -/
theorem words_eq_iff {text : List Char} {ws : List (List Char)} :
    words isSep text = ws ↔ Runs isSep text ws := by
  constructor
  · rintro rfl
    exact runs_words isSep text
  · exact Runs.words_eq

/-- A maximal run is a run: it is not empty and has no separator. -/
theorem Runs.isRun {text word : List Char} {ws : List (List Char)} (h : Runs isSep text ws)
    (hword : word ∈ ws) : IsRun isSep word := by
  induction h with
  | none _ => exact absurd hword List.not_mem_nil
  | last _ hlast => rwa [List.mem_singleton.mp hword]
  | cons _ hfirst _ _ ih =>
    rcases List.mem_cons.mp hword with rfl | hrest
    · exact hfirst
    · exact ih hrest

end Joinery.Text
