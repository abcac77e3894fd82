import Joinery.Proofs.Sql.Lexing

/-!
# String literals

A string literal is safe when the dialect reads it as one literal with the value that was
written, and goes on with whatever stands behind it. Four dialects end a literal at the first
quote that is not doubled, and quotes are written doubled. In MySQL a backslash escapes the
character after it as well, and backslashes are written as they are.

`literal?_quoteString_iff` says which values survive: in MySQL those in which every backslash
stands before a wildcard of patterns, in the other dialects all. For the values that do not,
the argument is one of length: a backslash can only be read back as itself from two of them,
and what is read is never longer than what was written (`length_le_of_upToQuote`).

Literals are written by `Dialect.quoteString`.
-/

namespace Joinery

namespace Text

/-! ## Literals with escapes -/

/-- What a backslash before the character stands for. Before the wildcards of patterns it stands
for itself. -/
def unescaped : Char → List Char
  | '0' => ['\x00']
  | 'b' => ['\x08']
  | 'n' => ['\n']
  | 'r' => ['\r']
  | 't' => ['\t']
  | 'Z' => ['\x1a']
  | '%' => ['\\', '%']
  | '_' => ['\\', '_']
  | c => [c]

/-- The text up to the first quote that is neither doubled nor escaped, and what follows it. -/
def upToQuote : List Char → Option (List Char × List Char)
  | [] => none
  | [c] => if c = '\'' then some ([], []) else none
  | c :: d :: rest =>
    if c = '\\' then (upToQuote rest).map fun (text, after) => (unescaped d ++ text, after)
    else if c = '\'' then
      if d = '\'' then (upToQuote rest).map fun (text, after) => ('\'' :: text, after)
      else some ([], d :: rest)
    else (upToQuote (d :: rest)).map fun (text, after) => (c :: text, after)

/-- Every backslash stands directly before a wildcard of patterns. -/
def EscapesWildcardsOnly : List Char → Prop
  | [] => True
  | c :: rest =>
    (c = '\\' → rest.head? = some '%' ∨ rest.head? = some '_') ∧ EscapesWildcardsOnly rest

instance decidableEscapesWildcardsOnly : DecidablePred EscapesWildcardsOnly
  | [] => isTrue trivial
  | c :: rest =>
    have := decidableEscapesWildcardsOnly rest
    inferInstanceAs (Decidable ((c = '\\' → rest.head? = some '%' ∨ rest.head? = some '_') ∧
      EscapesWildcardsOnly rest))

/-- Two quotes within a literal stand for one. -/
theorem upToQuote_quotes (rest : List Char) :
    upToQuote ('\'' :: '\'' :: rest) =
      (upToQuote rest).map fun (text, after) => ('\'' :: text, after) := by
  rw [upToQuote, if_neg (by decide), if_pos rfl, if_pos rfl]

/-- A backslash makes something of the character after it. -/
theorem upToQuote_backslash (d : Char) (rest : List Char) :
    upToQuote ('\\' :: d :: rest) =
      (upToQuote rest).map fun (text, after) => (unescaped d ++ text, after) := by
  rw [upToQuote, if_pos rfl]

theorem upToQuote_cons {c : Char} (hquote : c ≠ '\'') (hescape : c ≠ '\\') (rest : List Char) :
    upToQuote (c :: rest) = (upToQuote rest).map fun (text, after) => (c :: text, after) := by
  cases rest with
  | nil =>
    show (if c = '\'' then some ([], []) else none) = none
    rw [if_neg hquote]
  | cons d rest => rw [upToQuote, if_neg hescape, if_neg hquote]

/-- The quote that is written behind a text closes it, unless it is doubled. -/
theorem upToQuote_close {after : List Char} (h : ∀ c ∈ after.head?, c ≠ '\'') :
    upToQuote ('\'' :: after) = some ([], after) := by
  cases after with
  | nil => rfl
  | cons d after => rw [upToQuote, if_neg (by decide), if_pos rfl, if_neg (h d rfl)]

/-! ## What is read is no longer than what was written -/

/-- Doubling makes a text longer by the number of quotes in it. -/
theorem length_double (close : Char) (text : List Char) :
    (double close text).length = text.length + text.count close := by
  induction text with
  | nil => rfl
  | cons c rest ih =>
    by_cases hc : c = close
    · rw [double, if_pos hc, hc, List.count_cons_self, List.length_cons, List.length_cons,
        List.length_cons, ih]
      omega
    · rw [double, if_neg hc, List.count_cons_of_ne hc, List.length_cons, List.length_cons, ih]
      omega

/-- Doubling doubles how many quotes there are. -/
theorem count_double (close : Char) (text : List Char) :
    (double close text).count close = 2 * text.count close := by
  induction text with
  | nil => rfl
  | cons c rest ih =>
    by_cases hc : c = close
    · rw [double, if_pos hc, hc, List.count_cons_self, List.count_cons_self,
        List.count_cons_self, ih]
      omega
    · rw [double, if_neg hc, List.count_cons_of_ne hc, List.count_cons_of_ne hc, ih]

/-- An escape gives at most two characters, and one only where it escapes a quote. -/
theorem length_unescaped_le (c : Char) :
    2 * (unescaped c).length + (if c = '\'' then 1 else 0) ≤ 4 := by
  unfold unescaped
  split
  all_goals try decide
  show 2 + _ ≤ 4
  split <;> omega

/-- Reading takes at least a character for each that it gives, and half of one more for each quote
that it passes. -/
theorem length_add_count_le_of_upToQuote {written text after : List Char}
    (h : upToQuote written = some (text, after)) :
    2 * text.length + written.count '\'' + 2 * after.length + 1 ≤
      2 * written.length + after.count '\'' := by
  fun_induction upToQuote written generalizing text after with
  | case1 => exact nomatch h
  | case2 =>
    obtain ⟨rfl, rfl⟩ := Prod.mk.inj (Option.some.inj h)
    decide
  | case3 => exact nomatch h
  | case4 d rest ih =>
    obtain ⟨inner, hinner, rfl⟩ := exists_of_map_read h
    have hrest := ih hinner
    have hescape := length_unescaped_le d
    rw [List.length_append, List.count_cons_of_ne (by decide), List.count_cons, List.length_cons,
      List.length_cons]
    simp only [beq_iff_eq]
    omega
  | case5 rest _ ih =>
    obtain ⟨inner, hinner, rfl⟩ := exists_of_map_read h
    have hrest := ih hinner
    rw [List.count_cons_self, List.count_cons_self, List.length_cons, List.length_cons,
      List.length_cons]
    omega
  | case6 d rest _ hd =>
    obtain ⟨rfl, rfl⟩ := Prod.mk.inj (Option.some.inj h)
    simp only [List.count_cons_self, List.length_cons, List.length_nil]
    omega
  | case7 c d rest _ hquote ih =>
    obtain ⟨inner, hinner, rfl⟩ := exists_of_map_read h
    have hrest := ih hinner
    rw [List.count_cons_of_ne hquote, List.length_cons, List.length_cons]
    omega

/-- What is read of a text with its quotes doubled is no longer than the text, if it ends with the
quote behind the text. -/
theorem length_le_of_upToQuote {written text after : List Char}
    (h : upToQuote (double '\'' written ++ '\'' :: after) = some (text, after)) :
    text.length ≤ written.length := by
  have hlength := length_add_count_le_of_upToQuote h
  rw [List.length_append, List.count_append, List.length_cons, List.count_cons_self, length_double,
    count_double] at hlength
  omega

/-! ## Which values survive -/

/-- Reading on after a given start does not change what comes after. -/
theorem map_append_eq_some_iff {read : Option (List Char × List Char)}
    {start text after : List Char} :
    (read.map fun (text, after) => (start ++ text, after)) = some (start ++ text, after) ↔
      read = some (text, after) := by
  cases read with
  | none => exact iff_of_false (fun h => nomatch h) (fun h => nomatch h)
  | some p =>
    rw [Option.map_some, Option.some.injEq, Option.some.injEq, Prod.ext_iff, Prod.ext_iff,
      List.append_cancel_left_eq]

/-- Only before a wildcard and before a backslash is a backslash read as text that begins with
one. -/
theorem of_unescaped_append {d : Char} {inner text : List Char}
    (h : unescaped d ++ inner = '\\' :: text) : (d = '%' ∨ d = '_') ∨ d = '\\' := by
  unfold unescaped at h
  split at h
  case h_7 => exact .inl (.inl rfl)
  case h_8 => exact .inl (.inr rfl)
  case h_9 => exact .inr (List.cons.inj h).1
  all_goals exact absurd (List.cons.inj h).1 (by decide)

/-- A backslash is read back as itself only from before a wildcard: from before anything else
comes other text, and from before another backslash too little. -/
theorem not_upToQuote_backslash {after : List Char} {rest : List Char}
    (h : ¬ (rest.head? = some '%' ∨ rest.head? = some '_')) :
    upToQuote ('\\' :: (double '\'' rest ++ '\'' :: after)) ≠ some ('\\' :: rest, after) := by
  have hquote {tail : List Char} :
      upToQuote ('\\' :: '\'' :: tail) ≠ some ('\\' :: rest, after) := by
    intro hread
    rw [upToQuote_backslash] at hread
    obtain ⟨inner, _, htext⟩ := exists_of_map_read hread
    exact absurd (List.cons.inj htext).1 (by decide)
  cases rest with
  | nil => exact hquote
  | cons d rest =>
    by_cases hd : d = '\''
    · rw [double, if_pos hd]
      exact hquote
    · intro hread
      rw [double, if_neg hd, List.cons_append, upToQuote_backslash] at hread
      obtain ⟨inner, hinner, htext⟩ := exists_of_map_read hread
      rcases of_unescaped_append htext.symm with hwild | rfl
      · exact h (hwild.imp (congrArg some) (congrArg some))
      · have hlength := length_le_of_upToQuote hinner
        have hlong : inner = '\\' :: rest := (List.cons.inj htext).2.symm
        rw [hlong, List.length_cons] at hlength
        omega

/-- A backslash before a wildcard is read back as itself, and so what follows decides. -/
theorem upToQuote_wildcard_iff {d : Char} (hd : d = '%' ∨ d = '_') (tail text after : List Char) :
    upToQuote ('\\' :: d :: tail) = some ('\\' :: d :: text, after) ↔
      upToQuote (d :: tail) = some (d :: text, after) := by
  have hplain : d ≠ '\'' ∧ d ≠ '\\' := by
    rcases hd with rfl | rfl <;> decide
  have hunescaped : unescaped d = ['\\', d] := by
    rcases hd with rfl | rfl <;> rfl
  rw [upToQuote_backslash, upToQuote_cons hplain.1 hplain.2, hunescaped]
  exact (@map_append_eq_some_iff _ ['\\', d] text after).trans
    (@map_append_eq_some_iff _ [d] text after).symm

/-- In front of what is no quote, exactly such texts are read back. -/
theorem upToQuote_double_iff {after : List Char} (hafter : ∀ c ∈ after.head?, c ≠ '\'')
    (text : List Char) :
    upToQuote (double '\'' text ++ '\'' :: after) = some (text, after) ↔
      EscapesWildcardsOnly text := by
  induction text with
  | nil => exact iff_of_true (upToQuote_close hafter) trivial
  | cons c rest ih =>
    by_cases hescape : c = '\\'
    · rw [hescape, double, if_neg (by decide), List.cons_append]
      by_cases hwild : rest.head? = some '%' ∨ rest.head? = some '_'
      · have hrest : EscapesWildcardsOnly ('\\' :: rest) ↔ EscapesWildcardsOnly rest :=
          and_iff_right fun _ => hwild
        rw [hrest, ← ih]
        cases rest with
        | nil => exact absurd hwild (by simp)
        | cons d tail =>
          have hd : d = '%' ∨ d = '_' := hwild.imp Option.some.inj Option.some.inj
          have hclose : d ≠ '\'' := by
            rcases hd with rfl | rfl <;> decide
          rw [double, if_neg hclose, List.cons_append]
          exact upToQuote_wildcard_iff hd _ tail after
      · exact iff_of_false (not_upToQuote_backslash hwild) fun h => hwild (h.1 rfl)
    · have hrest : EscapesWildcardsOnly (c :: rest) ↔ EscapesWildcardsOnly rest :=
        and_iff_right fun h => absurd h hescape
      rw [hrest, ← ih]
      by_cases hquote : c = '\''
      · rw [hquote, double, if_pos rfl, List.cons_append, List.cons_append, upToQuote_quotes]
        exact @map_append_eq_some_iff _ ['\''] rest after
      · rw [double, if_neg hquote, List.cons_append, upToQuote_cons hquote hescape]
        exact @map_append_eq_some_iff _ [c] rest after

end Text

namespace Dialect

/-- The value of the string literal that a text begins with, and what follows it. -/
def literal? (d : Dialect) : List Char → Option (List Char × List Char)
  | [] => none
  | c :: rest =>
    if c = '\'' then
      if d = .mysql then Text.upToQuote rest else Text.upToClose '\'' rest
    else if d = .tsql ∧ c = 'N' ∧ rest.head? = some '\'' then Text.upToClose '\'' rest.tail
    else none

/-- Without a national prefix a literal is read back in every dialect, and in MySQL only if
backslashes stand before wildcards alone. -/
theorem literal?_singleQuoted_iff (d : Dialect) (text : List Char) {after : List Char}
    (hafter : ∀ c ∈ after.head?, c ≠ '\'') :
    d.literal? (singleQuoted text ++ after) = some (text, after) ↔
      (d = .mysql → Text.EscapesWildcardsOnly text) := by
  rw [singleQuoted, Text.delimited_append, literal?, if_pos rfl]
  by_cases hd : d = .mysql
  · rw [if_pos hd, Text.upToQuote_double_iff hafter]
    exact (imp_iff_right hd).symm
  · rw [if_neg hd, Text.upToClose_double hafter]
    exact iff_of_true rfl fun h => absurd h hd

/-- National literals are read back, whatever they hold. -/
theorem literal?_nationalQuoted (text : List Char) {after : List Char}
    (hafter : ∀ c ∈ after.head?, c ≠ '\'') :
    tsql.literal? (nationalQuoted text ++ after) = some (text, after) := by
  rw [nationalQuoted, List.cons_append, singleQuoted, Text.delimited_append, literal?,
    if_neg (by decide), if_pos ⟨rfl, rfl, rfl⟩]
  exact Text.upToClose_double hafter text

/-- A string literal is read as one literal with its value, in front of anything but a quote,
which would go on with it: in four dialects whatever the value is, in MySQL exactly if every
backslash in it stands before a wildcard of patterns. -/
theorem literal?_quoteString_iff (d : Dialect) (text : String) {after : List Char}
    (hafter : ∀ c ∈ after.head?, c ≠ '\'') :
    d.literal? ((d.quoteString text).toList ++ after) = some (text.toList, after) ↔
      (d = .mysql → Text.EscapesWildcardsOnly text.toList) := by
  rw [quoteString, String.toList_ofList, stringChars]
  split
  next hnational =>
    rw [hnational.1, literal?_nationalQuoted text.toList hafter]
    exact iff_of_true rfl fun h => nomatch h
  next => exact d.literal?_singleQuoted_iff text.toList hafter

end Dialect

/-- A value with quotes and with a backslash that MySQL leaves alone, in front of more of the
statement. -/
theorem Dialect.literal?_quoteString_discount :
    (∀ c ∈ [')', '\''].head?, c ≠ '\'') ∧ Text.EscapesWildcardsOnly "'10\\%' off".toList ∧
      Dialect.mysql.literal? ((Dialect.mysql.quoteString "'10\\%' off").toList ++ [')', '\'']) =
        some ("'10\\%' off".toList, [')', '\'']) := by
  have hafter : ∀ c ∈ [')', '\''].head?, c ≠ '\'' := by
    intro c hc
    rw [← Option.some.inj (Option.mem_def.mp hc)]
    decide
  have hvalue : Text.EscapesWildcardsOnly "'10\\%' off".toList := by decide +kernel
  exact ⟨hafter, hvalue,
    (Dialect.mysql.literal?_quoteString_iff "'10\\%' off" hafter).mpr fun _ => hvalue⟩

/-- A literal that ends in a backslash does not end at its quote in MySQL. -/
theorem Dialect.not_forall_literal?_quoteString :
    ¬ ∀ (d : Dialect) (text : String),
      d.literal? (d.quoteString text).toList = some (text.toList, []) := by
  intro h
  exact absurd (h .mysql "\\") (by decide +kernel)

end Joinery
