import Joinery.Proofs.Text.Words
import Joinery.Sql.JoinKind

/-!
# Which texts name a kind of join

A kind is read from the words of a text, put together again with underscores. The underscore is a
separator itself, so no word has one, and what is put together can be taken apart in one way only
(`intercalate_injective`): the text that is looked up stands for its words and for no others
(`ofNormalized?_intercalate`).

With that, reading is a matter of the words in upper case alone (`namesAlike_of_wordsOf_eq`), and
what does not change these does not change the kind: the case of letters, separators at the ends,
and which separators stand between two words.

The function that reads a kind is `JoinKind.parse`.
-/

namespace Joinery

namespace JoinKind

open Text (AllSeparators IsRun Runs words)

/-- The kind that words in upper case spell. -/
def ofWords? : List String → Option JoinKind
  | [] => some plain
  | ["PLAIN"] => some plain
  | ["NATURAL"] => some natural
  | ["LEFT"] => some left
  | ["INNER"] => some inner
  | ["RIGHT"] => some right
  | ["LEFT", "OUTER"] => some leftOuter
  | _ => none

/-- A word with its ASCII letters in upper case. -/
def upperWord (word : List Char) : String :=
  String.ofList (word.map Char.toUpper)

/-- Both texts name one kind, or neither names any. -/
def NamesAlike (first second : String) : Prop :=
  ∀ kind, parse first = .ok kind ↔ parse second = .ok kind

/-! ## Words with underscores between them -/

/-- The words can be told apart with an underscore between two. -/
def Separable (ws : List String) : Prop :=
  ∀ w ∈ ws, w ≠ "" ∧ '_' ∉ w.toList

instance (ws : List String) : Decidable (Separable ws) :=
  inferInstanceAs (Decidable (∀ w ∈ ws, w ≠ "" ∧ '_' ∉ w.toList))

/-- Only no words at all are joined to nothing. -/
theorem intercalate_eq_empty_iff {ws : List String} (h : Separable ws) :
    "_".intercalate ws = "" ↔ ws = [] := by
  cases ws with
  | nil => simp
  | cons w rest =>
    refine iff_of_false (fun hempty => ?_) (List.cons_ne_nil w rest)
    have hw := (h w (List.mem_cons_self ..)).1
    cases rest with
    | nil => exact hw (String.intercalate_singleton.symm.trans hempty)
    | cons v rest =>
      rw [String.intercalate_cons_cons, String.append_eq_empty_iff,
        String.append_eq_empty_iff] at hempty
      exact hw hempty.1.1

theorem splitOn_intercalate {ws : List String} (h : Separable ws) (hne : ws ≠ []) :
    ("_".intercalate ws).toList.splitOn '_' = ws.map String.toList := by
  rw [String.toList_intercalate]
  refine List.splitOn_intercalate '_' ?_ (mt List.map_eq_nil_iff.mp hne)
  intro letters hletters
  obtain ⟨w, hw, rfl⟩ := List.mem_map.mp hletters
  exact (h w hw).2

/-- Different words are joined to different texts. -/
theorem intercalate_injective {ws vs : List String} (hws : Separable ws) (hvs : Separable vs)
    (h : "_".intercalate ws = "_".intercalate vs) : ws = vs := by
  by_cases hne : ws = []
  · rw [hne, String.intercalate_nil] at h
    rw [hne, (intercalate_eq_empty_iff hvs).mp h.symm]
  · have hne' : vs ≠ [] := by
      rintro rfl
      exact hne ((intercalate_eq_empty_iff hws).mp h)
    have hsplit := splitOn_intercalate hws hne
    rw [h, splitOn_intercalate hvs hne'] at hsplit
    exact (List.map_inj_right fun _ _ => String.toList_inj.mp).mp hsplit.symm

/-- The words of a kind can be told apart once they are joined. -/
theorem separable_of_ofWords? {ws : List String} {kind : JoinKind} (h : ofWords? ws = some kind) :
    Separable ws := by
  unfold ofWords? at h
  split at h
  all_goals first | decide | exact nomatch h

/-- A joined text is that of a kind exactly if its words are. -/
theorem ofNormalized?_eq_some_iff {text : String} {kind : JoinKind} :
    ofNormalized? text = some kind ↔
      ∃ ws, ofWords? ws = some kind ∧ text = "_".intercalate ws := by
  constructor
  · intro h
    unfold ofNormalized? at h
    split at h
    next => exact ⟨[], h, rfl⟩
    next => exact ⟨["PLAIN"], h, rfl⟩
    next => exact ⟨["NATURAL"], h, rfl⟩
    next => exact ⟨["LEFT"], h, rfl⟩
    next => exact ⟨["INNER"], h, rfl⟩
    next => exact ⟨["RIGHT"], h, rfl⟩
    next => exact ⟨["LEFT", "OUTER"], h, rfl⟩
    next => exact nomatch h
  · rintro ⟨ws, h, rfl⟩
    unfold ofWords? at h
    split at h
    all_goals first | exact h | exact nomatch h

/-- The text that is looked up is that of its words, and of no others. -/
theorem ofNormalized?_intercalate {ws : List String} (h : Separable ws) :
    ofNormalized? ("_".intercalate ws) = ofWords? ws := by
  apply Option.ext
  intro kind
  rw [ofNormalized?_eq_some_iff]
  constructor
  · rintro ⟨vs, hvs, heq⟩
    rwa [intercalate_injective h (separable_of_ofWords? hvs) heq]
  · exact fun hws => ⟨ws, hws, rfl⟩

/-! ## The words of a text -/

/-- A letter is moved by 32 places if it is small, and no other character is moved. -/
theorem toUpper_cases (c : Char) :
    c.toUpper = c ∨ 97 ≤ c.toNat ∧ c.toNat ≤ 122 ∧ c.toUpper.toNat + 32 = c.toNat := by
  unfold Char.toUpper
  split
  next h =>
    right
    have hlow : 97 ≤ c.toNat := h.1
    have hhigh : c.toNat ≤ 122 := h.2
    refine ⟨hlow, hhigh, ?_⟩
    show (c.val + ('A'.val - 'a'.val)).toNat + 32 = c.toNat
    rw [UInt32.toNat_add]
    show (c.toNat + 4294967264) % 2 ^ 32 + 32 = c.toNat
    omega
  next => exact .inl rfl

theorem isSeparator_of_isLetter {c : Char}
    (h : 65 ≤ c.toNat ∧ c.toNat ≤ 90 ∨ 97 ≤ c.toNat ∧ c.toNat ≤ 122) : isSeparator c = false := by
  have hblank : Text.isBlank c = false := by
    simp only [Text.isBlank, Text.inRanges, Text.blankRanges, List.any_cons, List.any_nil,
      Bool.or_eq_false_iff, Bool.and_eq_false_iff, decide_eq_false_iff_not, and_true]
    omega
  have hne {d : Char} (hd : d.toNat = 95 ∨ d.toNat = 45) : (c == d) = false := by
    rw [beq_eq_false_iff_ne]
    rintro rfl
    omega
  rw [isSeparator, hblank, hne (.inl rfl), hne (.inr rfl)]
  rfl

/-- The upper case of an ASCII letter is a letter, and all else stays as it is. -/
theorem isSeparator_toUpper (c : Char) : isSeparator c.toUpper = isSeparator c := by
  rcases toUpper_cases c with heq | ⟨hlow, hhigh, heq⟩
  · rw [heq]
  · rw [isSeparator_of_isLetter (.inl (by omega)), isSeparator_of_isLetter (.inr ⟨hlow, hhigh⟩)]

/-- The words of a text have no separator in them. -/
theorem separable_wordsOf (text : String) : Separable (wordsOf text) := by
  intro w hw
  obtain ⟨word, hword, rfl⟩ := List.mem_map.mp hw
  have hrun := (Text.runs_words isSeparator text.toList).isRun hword
  constructor
  · intro hempty
    rw [String.ofList_eq_empty_iff, List.map_eq_nil_iff] at hempty
    exact hrun.1 hempty
  · rw [String.toList_ofList, List.mem_map]
    rintro ⟨c, hc, heq⟩
    have hsep := isSeparator_toUpper c
    rw [heq, hrun.2 c hc] at hsep
    exact absurd hsep (by decide)

/-- The words of a text are its runs, in capitals. -/
theorem wordsOf_of_runs {text : String} {ws : List (List Char)}
    (h : Runs isSeparator text.toList ws) : wordsOf text = ws.map upperWord := by
  rw [wordsOf, h.words_eq]
  rfl

/-- A text is parsed by its words alone, and only the error repeats it. -/
theorem parse_eq (text : String) :
    parse text = match ofWords? (wordsOf text) with
      | some kind => .ok kind
      | none => .error ⟨text⟩ := by
  have h : ofNormalized? (normalized text) = ofWords? (wordsOf text) :=
    ofNormalized?_intercalate (separable_wordsOf text)
  unfold parse
  cases hwords : ofWords? (wordsOf text) with
  | none => rw [h.trans hwords]
  | some kind => rw [h.trans hwords]

/-- A text names a kind exactly if its words are those of the kind. -/
theorem parse_eq_ok_iff {text : String} {kind : JoinKind} :
    parse text = .ok kind ↔ ofWords? (wordsOf text) = some kind := by
  rw [parse_eq]
  cases ofWords? (wordsOf text) with
  | none => simp
  | some k => simp

/-- An error repeats the text whose words belong to no kind. -/
theorem parse_eq_error_iff {text : String} {unknown : UnknownKind} :
    parse text = .error unknown ↔ ofWords? (wordsOf text) = none ∧ unknown = ⟨text⟩ := by
  rw [parse_eq]
  cases ofWords? (wordsOf text) with
  | none => simp [eq_comm]
  | some k => simp

/-- Texts with the same words name the same kind, or none. -/
theorem namesAlike_of_wordsOf_eq {first second : String} (h : wordsOf first = wordsOf second) :
    NamesAlike first second := by
  intro kind
  rw [parse_eq_ok_iff, parse_eq_ok_iff, h]

/-- The words of a text in upper case are those of the text in upper case. -/
theorem wordsOf_eq (text : String) :
    wordsOf text = (words isSeparator (text.toList.map Char.toUpper)).map String.ofList := by
  rw [Text.words_map isSeparator_toUpper, List.map_map]
  rfl

/-! ## The rule -/

/-- A text names the kind that its words spell in upper case, and is given back where they spell
none. So the case of ASCII letters does not matter, nor do separators at the ends of the text, nor
which ones part two words; and both ways in which a kind is written name it. -/
theorem parse_iff_runs (text : String) :
    (∃ ws, Runs isSeparator text.toList ws) ∧
    (∀ ws, Runs isSeparator text.toList ws →
      (∀ kind, parse text = .ok kind ↔ ofWords? (ws.map upperWord) = some kind) ∧
      (∀ unknown, parse text = .error unknown ↔
        ofWords? (ws.map upperWord) = none ∧ unknown = ⟨text⟩)) ∧
    (∀ other : String, other.toList.map Char.toUpper = text.toList.map Char.toUpper →
      NamesAlike other text) ∧
    (∀ leading trailing : String, AllSeparators isSeparator leading.toList →
      AllSeparators isSeparator trailing.toList →
      NamesAlike (leading ++ text ++ trailing) text) ∧
    (∀ before gap other after : String, text = before ++ gap ++ after → gap ≠ "" → other ≠ "" →
      AllSeparators isSeparator gap.toList → AllSeparators isSeparator other.toList →
      NamesAlike (before ++ other ++ after) text) ∧
    ∀ kind : JoinKind, parse kind.name = .ok kind ∧ parse kind.keywordText = .ok kind := by
  refine ⟨⟨_, Text.runs_words isSeparator text.toList⟩, ?_, ?_, ?_, ?_, ?_⟩
  · intro ws hws
    rw [← wordsOf_of_runs hws]
    exact ⟨fun kind => parse_eq_ok_iff, fun unknown => parse_eq_error_iff⟩
  · intro other hcase
    apply namesAlike_of_wordsOf_eq
    rw [wordsOf_eq, hcase, ← wordsOf_eq]
  · intro leading trailing hleading htrailing
    apply namesAlike_of_wordsOf_eq
    rw [wordsOf, String.toList_append, String.toList_append,
      Text.words_append_trailing htrailing, Text.words_gap_append hleading]
    rfl
  · rintro before gap other after rfl hgap hother hseparates hseparates'
    apply namesAlike_of_wordsOf_eq
    rw [wordsOf, wordsOf]
    simp only [String.toList_append]
    rw [Text.words_append_gap (mt String.toList_eq_nil_iff.mp hother) hseparates',
      Text.words_append_gap (mt String.toList_eq_nil_iff.mp hgap) hseparates]
  · intro kind
    cases kind <;>
      exact ⟨parse_eq_ok_iff.mpr (by decide +kernel), parse_eq_ok_iff.mpr (by decide +kernel)⟩

/-- Two words with separators of several kinds around them. -/
def spaced : String :=
  "\u2003Left_\touter-"

/-- Odd spaces, separators and letters in one join type. -/
theorem parse_spaced :
    Runs isSeparator spaced.toList ["Left".toList, "outer".toList] ∧
      parse spaced = .ok .leftOuter ∧
      NamesAlike "\u2003lEFT_\tOUTER-" spaced ∧
      NamesAlike ("--" ++ spaced ++ "\n") spaced ∧
      NamesAlike ("\u2003Left" ++ " " ++ "outer-") spaced := by
  have hruns : Runs isSeparator spaced.toList ["Left".toList, "outer".toList] :=
    Text.words_eq_iff.mp (by decide +kernel)
  obtain ⟨_, hkinds, hcase, hends, hgaps, _⟩ := parse_iff_runs spaced
  refine ⟨hruns, ((hkinds _ hruns).1 .leftOuter).mpr (by decide +kernel), ?_, ?_, ?_⟩
  · exact hcase _ (by decide +kernel)
  · exact hends "--" "\n" (by decide +kernel) (by decide +kernel)
  · exact hgaps "\u2003Left" "_\t" " " "outer-" (by decide +kernel) (by decide) (by decide)
      (by decide +kernel) (by decide +kernel)

end JoinKind

end Joinery
