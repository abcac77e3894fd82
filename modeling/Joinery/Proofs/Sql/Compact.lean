import Mathlib.Data.List.TakeWhile
import Joinery.Proofs.Sql.Lexing

/-!
# Statements on one line

On one line a separator becomes a space where text stands on both sides of it. So what is written of
two parts with a separator between them is what is written of each, with one space between
(`compactChars_append_separator`): writing the second part does not depend on the first. It holds
only where both parts show text towards the separator; a name or a literal always does, since an
empty one still has its delimiters.

Of a whole statement it follows what its line looks like (`renderCompact_pieces`). Cut into `pieces`,
each a token that shows and the layout behind it, the statement is the texts of the pieces in order,
with a space for each gap that separates and lies between two of them. The invariant of writing is
`compactFrom_eq_joined`: what came before matters for the space in front of the first piece only.

Writing on one line is `Tokens.renderCompact`.
-/

namespace Joinery

/-- The token is written as some text, which is more than layout. -/
def Token.IsVisible (d : Dialect) (t : Token) : Prop :=
  t.isLayout = false ∧ t.chars d ≠ []

instance (d : Dialect) (t : Token) : Decidable (t.IsVisible d) :=
  inferInstanceAs (Decidable (t.isLayout = false ∧ t.chars d ≠ []))

namespace Tokens

variable {d : Dialect}

/-- The tokens start with one that can be seen. -/
def StartsVisibly (d : Dialect) (ts : Tokens) : Prop :=
  ∃ t rest, ts = t :: rest ∧ t.IsVisible d

/-- The tokens end with one that can be seen. -/
def EndsVisibly (d : Dialect) (ts : Tokens) : Prop :=
  ∃ front t, ts = front ++ [t] ∧ t.IsVisible d

/-- More tokens at the end do not change how they start. -/
theorem StartsVisibly.append {a : Tokens} (h : StartsVisibly d a) (b : Tokens) :
    StartsVisibly d (a ++ b) := by
  obtain ⟨t, rest, rfl, ht⟩ := h
  exact ⟨t, rest ++ b, rfl, ht⟩

/-- More tokens in front do not change how they end. -/
theorem EndsVisibly.append {b : Tokens} (h : EndsVisibly d b) (a : Tokens) :
    EndsVisibly d (a ++ b) := by
  obtain ⟨front, t, rfl, ht⟩ := h
  exact ⟨a ++ front, t, (List.append_assoc a front [t]).symm, ht⟩

/-- Parts that all end visibly do so together. -/
theorem EndsVisibly.append_flatMap {α : Type} {a : Tokens} (h : EndsVisibly d a)
    {tokensOf : α → Tokens} (hnext : ∀ x, EndsVisibly d (tokensOf x)) (xs : List α) :
    EndsVisibly d (a ++ xs.flatMap tokensOf) := by
  induction xs generalizing a with
  | nil => simpa using h
  | cons x xs ih =>
    rw [List.flatMap_cons, ← List.append_assoc]
    exact ih ((hnext x).append a)

/-! ## Two parts on one line -/

/-- Layout is not written; it may leave a space pending. -/
theorem compactFrom_layout {t : Token} (h : t.isLayout = true) (started pending : Bool)
    (rest : Tokens) :
    compactFrom d started pending (t :: rest)
      = compactFrom d started (pending || t.separates) rest :=
  if_pos h

/-- What can be seen is written, after a pending space. -/
theorem compactFrom_text {t : Token} (h : t.IsVisible d) (started pending : Bool) (rest : Tokens) :
    compactFrom d started pending (t :: rest)
      = (if pending && started then [' '] else []) ++ t.chars d ++ compactFrom d true false rest := by
  have hempty : (t.chars d).isEmpty = false := List.isEmpty_eq_false_iff.mpr h.2
  rw [compactFrom, if_neg (by simp [h.1])]
  simp only [hempty, Bool.not_false, Bool.or_true]

/-- Behind a visible end it no longer matters what was written before. -/
theorem compactFrom_append {a : Tokens} (h : EndsVisibly d a) (started pending : Bool)
    (b : Tokens) :
    compactFrom d started pending (a ++ b)
      = compactFrom d started pending a ++ compactFrom d true false b := by
  obtain ⟨front, t, rfl, ht⟩ := h
  induction front generalizing started pending with
  | nil =>
    rw [List.nil_append, List.singleton_append, compactFrom_text ht, compactFrom_text ht,
      compactFrom, List.append_nil]
  | cons u front ih =>
    by_cases hu : u.isLayout = true
    · rw [List.cons_append, List.cons_append, compactFrom_layout hu, compactFrom_layout hu, ih]
    · simp [compactFrom, hu, ← ih]

/-- Text that goes on behind other text, with a separator between them or without one. -/
theorem compactFrom_started {b : Tokens} (h : StartsVisibly d b) (pending : Bool) :
    compactFrom d true pending b = (if pending then [' '] else []) ++ compactChars d b := by
  obtain ⟨t, rest, rfl, ht⟩ := h
  rw [compactChars, compactFrom_text ht, compactFrom_text ht]
  cases pending <;> rfl

/-- A separator between visible ends is one space on one line. -/
theorem compactChars_append_separator {a b : Tokens} {sep : Token} (ha : EndsVisibly d a)
    (hsep : sep.separates = true) (hb : StartsVisibly d b) :
    compactChars d (a ++ sep :: b) = compactChars d a ++ ' ' :: compactChars d b := by
  have hlayout : sep.isLayout = true := by
    cases sep with
    | space | newline => rfl
    | _ => exact nomatch hsep
  rw [compactChars, compactFrom_append ha, compactFrom_layout hlayout, hsep, compactFrom_started hb]
  rfl

/-! ## The texts of a statement and the gaps between them -/

/-- A token that is more than layout, and the layout between it and the next one. -/
structure Piece where
  token : Token
  gap : Tokens
  isLayout_token : token.isLayout = false
  isLayout_gap : ∀ t ∈ gap, t.isLayout = true

namespace Piece

/-- The tokens of a piece: what can be seen and the gap after it. -/
def tokens (p : Piece) : Tokens :=
  p.token :: p.gap

/-- What is written for the layout behind the token, if text follows. -/
def gapChars (p : Piece) : List Char :=
  if p.gap.any Token.separates then [' '] else []

/-- The texts of the pieces, with what their gaps are written as between each and the next. -/
def joined (d : Dialect) : List Piece → List Char
  | [] => []
  | [p] => p.token.chars d
  | p :: q :: rest => p.token.chars d ++ p.gapChars ++ joined d (q :: rest)

theorem prefix_joined (p : Piece) (rest : List Piece) :
    p.token.chars d <+: joined d (p :: rest) := by
  cases rest with
  | nil => exact List.prefix_rfl
  | cons q rest =>
    rw [joined, List.append_assoc]
    exact List.prefix_append _ _

theorem suffix_joined (front : List Piece) (p : Piece) :
    p.token.chars d <:+ joined d (front ++ [p]) := by
  induction front with
  | nil => exact List.suffix_rfl
  | cons q front ih =>
    obtain ⟨r, rest, hrest⟩ := List.exists_cons_of_ne_nil (List.append_ne_nil_of_right_ne_nil front
      (List.cons_ne_nil p []))
    rw [List.cons_append, hrest, joined, ← hrest]
    exact ih.trans (List.suffix_append _ _)

end Piece

/-- The tokens that are more than layout, in order, each with the layout behind it. Layout in front of
the first belongs to none. -/
def pieces : Tokens → List Piece
  | [] => []
  | t :: rest =>
    if h : t.isLayout = true then pieces rest
    else
      { token := t, gap := rest.takeWhile Token.isLayout
        isLayout_token := Bool.eq_false_iff.mpr h
        isLayout_gap := fun _ hu => List.mem_takeWhile_imp hu } :: pieces rest

/-- The pieces are all there is behind the leading layout. -/
theorem takeWhile_append_flatMap_pieces (ts : Tokens) :
    ts.takeWhile Token.isLayout ++ (pieces ts).flatMap Piece.tokens = ts := by
  induction ts with
  | nil => rfl
  | cons t rest ih =>
    by_cases h : t.isLayout = true
    · rw [pieces, dif_pos h, List.takeWhile_cons, if_pos h, List.cons_append, ih]
    · rw [pieces, dif_neg h, List.takeWhile_cons, if_neg h, List.nil_append, List.flatMap_cons,
        Piece.tokens, List.cons_append, ih]

/-- The space in front of the first piece: due if text stands before it, and a separator since that
text, either in the leading layout or earlier. -/
def leadChars (started pending : Bool) (ts : Tokens) : List Char :=
  if started && (pending || (ts.takeWhile Token.isLayout).any Token.separates) && !(pieces ts).isEmpty
  then [' '] else []

/-- Wherever writing stands, it goes on with the space that is due and then the pieces. -/
theorem compactFrom_eq_joined {ts : Tokens} (h : ∀ t ∈ ts, t.isLayout = true ∨ t.IsVisible d)
    (started pending : Bool) :
    compactFrom d started pending ts = leadChars started pending ts ++ Piece.joined d (pieces ts) := by
  induction ts generalizing started pending with
  | nil => simp [compactFrom, leadChars, pieces, Piece.joined]
  | cons t rest ih =>
    have hrest := ih fun u hu => h u (List.mem_cons_of_mem t hu)
    by_cases hlayout : t.isLayout = true
    · rw [compactFrom_layout hlayout, hrest, leadChars, leadChars, pieces, dif_pos hlayout,
        List.takeWhile_cons, if_pos hlayout, List.any_cons, Bool.or_assoc]
    · have hvisible : t.IsVisible d := (h t (List.mem_cons_self ..)).resolve_left hlayout
      rw [compactFrom_text hvisible, hrest, leadChars, leadChars, pieces, dif_neg hlayout,
        List.takeWhile_cons, if_neg hlayout]
      cases pieces rest with
      | nil => simp [Piece.joined, Bool.and_comm]
      | cons q others => simp [Piece.joined, Piece.gapChars, Bool.and_comm]

/-- If no token but layout is written as nothing, then a statement on one line is the texts of its
tokens in order, with a space between two exactly where the layout between them separates, and with
none in front of the first or behind the last. So a separator between two parts that show text
towards it is a space between what is written of each. -/
theorem renderCompact_pieces (d : Dialect) :
    (∀ ts : Tokens, (∀ t ∈ ts, t.isLayout = true ∨ t.IsVisible d) →
      ts.takeWhile Token.isLayout ++ (pieces ts).flatMap Piece.tokens = ts ∧
      (renderCompact d ts).toList = Piece.joined d (pieces ts) ∧
      (∀ p ∈ (pieces ts).head?, p.token.chars d <+: (renderCompact d ts).toList) ∧
      ∀ p ∈ (pieces ts).getLast?, p.token.chars d <:+ (renderCompact d ts).toList) ∧
    ∀ (a b : Tokens) (sep : Token), EndsVisibly d a → sep.separates = true → StartsVisibly d b →
      renderCompact d (a ++ sep :: b) = renderCompact d a ++ " " ++ renderCompact d b := by
  refine ⟨fun ts hts => ?_, fun a b sep ha hsep hb => ?_⟩
  · have hjoined : (renderCompact d ts).toList = Piece.joined d (pieces ts) := by
      rw [renderCompact, String.toList_ofList]
      exact compactFrom_eq_joined hts false false
    refine ⟨takeWhile_append_flatMap_pieces ts, hjoined, fun p hp => ?_, fun p hp => ?_⟩
    · obtain ⟨rest, hrest⟩ := List.head?_eq_some_iff.mp hp
      rw [hjoined, hrest]
      exact p.prefix_joined rest
    · obtain ⟨front, hfront⟩ := List.getLast?_eq_some_iff.mp hp
      rw [hjoined, hfront]
      exact p.suffix_joined front
  · apply String.toList_inj.mp
    rw [renderCompact, String.toList_ofList, compactChars_append_separator ha hsep hb]
    simp [renderCompact]

/-- Layout at both ends, a run of it in the middle, and indents that are written as nothing. -/
theorem renderCompact_pieces_between :
    let ts : Tokens := [.newline, .keyword .IN, .newline, .indent 2, .space, .openParen, .indent 1,
      .string "a  b", .closeParen, .newline]
    (∀ t ∈ ts, t.isLayout = true ∨ t.IsVisible .generic) ∧
    renderCompact .generic ts = "IN ('a  b')" ∧
    EndsVisibly .generic [.newline, .identifier "a"] ∧ StartsVisibly .generic [.openParen, .space] ∧
    renderCompact .generic
      ([Token.newline, .identifier "a"] ++ Token.newline :: [.openParen, .space]) = "a (" := by
  intro ts
  have hts : ∀ t ∈ ts, t.isLayout = true ∨ t.IsVisible .generic := by decide
  have ha : EndsVisibly .generic [.newline, .identifier "a"] :=
    ⟨[.newline], .identifier "a", rfl, by decide⟩
  have hb : StartsVisibly .generic [.openParen, .space] := ⟨.openParen, [.space], rfl, by decide⟩
  obtain ⟨hpieces, hparts⟩ := renderCompact_pieces .generic
  refine ⟨hts, String.toList_inj.mp ?_, ha, hb, ?_⟩
  · rw [(hpieces ts hts).2.1]
    decide
  · rw [hparts _ _ .newline ha rfl hb]
    decide

end Tokens

end Joinery
