import Joinery.Alias
import Mathlib.Data.List.Basic
import Mathlib.Data.List.Induction

/-!
# When two aliases are the same

An alias is a prefix, a number, an underscore and what is left of a table name. Neither the
prefix nor the table is marked off: both may have digits and underscores of their own. Two
aliases under one prefix still differ with their numbers, since a number ends at the first
underscore after the prefix (`eq_of_digits_append`). Under two prefixes they can only be the
same if one prefix `Mimics` the other: it reads like the beginning of an alias with the other,
as `t1` and `t1_` do for `t`, but `t1a` does not (`aliasChars_cases`).

A prefix that mimics another does lead to the same alias, with two different numbers
(`exists_aliasChars_eq`).

The aliases are those that `AliasIssuer.next` gives out.
-/

namespace Joinery

/-! ## Numbers in decimal digits -/

/-- A number in digits, without leading zeros. -/
def IsNumeral (text : List Char) : Prop :=
  text ≠ [] ∧ (∀ c ∈ text, c.isDigit = true) ∧ text.head? ≠ some '0'

theorem isDigit_of_mem_toDigits {n : Nat} {c : Char} (h : c ∈ Nat.toDigits 10 n) :
    c.isDigit = true :=
  Nat.isDigit_of_mem_toDigits (by omega) (by omega) h

/-- A positive number is written without leading zeros. -/
theorem head?_toDigits_ne_zero {n : Nat} (h : 0 < n) : (Nat.toDigits 10 n).head? ≠ some '0' := by
  induction n using Nat.strongRecOn with
  | ind n ih =>
    rw [Nat.toDigits_eq_if (by omega)]
    split
    next hlt =>
      rw [List.head?_cons, Ne, Option.some.injEq, Nat.digitChar_eq_zero]
      omega
    next hge =>
      rw [List.head?_append_of_ne_nil _ Nat.toDigits_ne_nil]
      exact ih (n / 10) (by omega) (by omega)

/-- The digits of a positive number are a numeral. -/
theorem isNumeral_toDigits {n : Nat} (h : 0 < n) : IsNumeral (Nat.toDigits 10 n) :=
  ⟨Nat.toDigits_ne_nil, fun _ hc => isDigit_of_mem_toDigits hc, head?_toDigits_ne_zero h⟩

theorem exists_digitChar {c : Char} (h : c.isDigit = true) : ∃ d, d < 10 ∧ Nat.digitChar d = c := by
  have hrange : 48 ≤ c.toNat ∧ c.toNat ≤ 57 := by
    rw [Char.isDigit, Bool.and_eq_true, decide_eq_true_eq, decide_eq_true_eq] at h
    exact h
  refine ⟨c.toNat - 48, by omega, Char.toNat_inj.mp ?_⟩
  rw [Nat.toNat_digitChar_of_lt_ten (by omega)]
  omega

/-- Digits without leading zeros are the digits of a number. -/
theorem exists_toDigits {text : List Char} (h : IsNumeral text) :
    ∃ n, 0 < n ∧ Nat.toDigits 10 n = text := by
  induction text using List.reverseRecOn with
  | nil => exact absurd rfl h.1
  | append_singleton front c ih =>
    obtain ⟨_, hdigits, hhead⟩ := h
    obtain ⟨d, hd, rfl⟩ := exists_digitChar (hdigits c (by simp))
    by_cases hnil : front = []
    · rw [hnil, List.nil_append, List.head?_cons, Ne, Option.some.injEq,
        Nat.digitChar_eq_zero] at hhead
      refine ⟨d, by omega, ?_⟩
      rw [hnil, List.nil_append, Nat.toDigits_of_lt_base hd]
    · rw [List.head?_append_of_ne_nil _ hnil] at hhead
      obtain ⟨n, hn, rfl⟩ :=
        ih ⟨hnil, fun c hc => hdigits c (List.mem_append_left _ hc), hhead⟩
      refine ⟨10 * n + d, by omega, ?_⟩
      rw [← Nat.toDigits_append_toDigits (by omega) hn hd, Nat.toDigits_of_lt_base hd]

/-- Different numbers are written differently. -/
theorem toDigits_injective {n m : Nat} (h : Nat.toDigits 10 n = Nat.toDigits 10 m) : n = m := by
  rw [← Nat.ofDigitChars_ten_toDigits (n := n), h, Nat.ofDigitChars_ten_toDigits]

/-- Digits end where something else begins. -/
theorem eq_of_digits_append {ds es rest other : List Char} (hds : ∀ c ∈ ds, c.isDigit = true)
    (hes : ∀ c ∈ es, c.isDigit = true) (h : ds ++ '_' :: rest = es ++ '_' :: other) : ds = es := by
  have hstop (ds rest : List Char) (hds : ∀ c ∈ ds, c.isDigit = true) :
      (ds ++ '_' :: rest).takeWhile Char.isDigit = ds := by
    rw [List.takeWhile_append_of_pos hds, List.takeWhile_cons_of_neg (by decide), List.append_nil]
  rw [← hstop ds rest hds, h, hstop es other hes]

/-! ## Prefixes that look like aliases -/

namespace AliasIssuer

/-- The other prefix reads like the beginning of an alias with the first: it goes on with a number,
and behind that it ends or has an underscore. The number may be any, as the counter of an issuer has
no bound. -/
def Mimics (start other : List Char) : Prop :=
  ∃ number rest, IsNumeral number ∧ (rest = [] ∨ rest.head? = some '_') ∧
    other = start ++ number ++ rest

/-- No prefix mimics itself, so one prefix alone never makes a clash. -/
theorem not_mimics_self (start : List Char) : ¬ Mimics start start := by
  intro ⟨number, rest, hnumber, _, h⟩
  rw [List.append_assoc, List.self_eq_append_right] at h
  exact hnumber.1 (List.append_eq_nil_iff.mp h).1

/-- What the longer of two prefixes has more, where two aliases begin with the same characters:
nothing, or the beginning of an alias. -/
theorem mimics_of_append_eq {start more : List Char} {n m : Nat} {rest other : List Char}
    (hn : 0 < n)
    (h : Nat.toDigits 10 n ++ '_' :: rest = more ++ (Nat.toDigits 10 m ++ '_' :: other)) :
    more = [] ∧ n = m ∨ Mimics start (start ++ more) := by
  have hnumeral := isNumeral_toDigits hn
  rcases List.append_eq_append_iff.mp h with ⟨behind, hmore, hbehind⟩ | ⟨left, hdigits, hleft⟩
  · -- the number is part of what the longer prefix has more
    right
    refine ⟨Nat.toDigits 10 n, behind, hnumeral, ?_, by rw [hmore, List.append_assoc]⟩
    cases behind with
    | nil => exact .inl rfl
    | cons c behind =>
      rw [List.cons_append, List.cons.injEq] at hbehind
      exact .inr (by rw [List.head?_cons, ← hbehind.1])
  · -- what the longer prefix has more is the beginning of the number
    by_cases hmore : more = []
    · left
      rw [hmore, List.nil_append] at h
      exact ⟨hmore, toDigits_injective (eq_of_digits_append
        (fun _ hc => isDigit_of_mem_toDigits hc) (fun _ hc => isDigit_of_mem_toDigits hc) h)⟩
    · right
      rw [hdigits] at hnumeral
      refine ⟨more, [], ⟨hmore, ?_, ?_⟩, .inl rfl, (List.append_nil _).symm⟩
      · exact fun c hc => hnumeral.2.1 c (List.mem_append_left _ hc)
      · have hhead := hnumeral.2.2
        rw [List.head?_append_of_ne_nil _ hmore] at hhead
        exact hhead

/-- Two aliases are the same only under one prefix and number, or if one prefix mimics the other. -/
theorem aliasChars_cases {start other table name : List Char} {n m : Nat} (hn : 0 < n) (hm : 0 < m)
    (h : aliasChars start n table = aliasChars other m name) :
    start = other ∧ n = m ∨ Mimics start other ∨ Mimics other start := by
  unfold aliasChars at h
  rw [List.append_assoc, List.append_assoc] at h
  rcases List.append_eq_append_iff.mp h with ⟨more, hother, hmore⟩ | ⟨more, hstart, hmore⟩
  · rw [hother]
    rcases mimics_of_append_eq hn hmore with ⟨hnil, heq⟩ | hmimics
    · exact .inl ⟨by rw [hnil, List.append_nil], heq⟩
    · exact .inr (.inl hmimics)
  · rw [hstart]
    rcases mimics_of_append_eq hm hmore with ⟨hnil, heq⟩ | hmimics
    · exact .inl ⟨by rw [hnil, List.append_nil], heq.symm⟩
    · exact .inr (.inr hmimics)

theorem isIdentifierPart_of_isDigit {c : Char} (h : c.isDigit = true) :
    Text.isIdentifierPart c = true := by
  rw [Text.isIdentifierPart, Char.isAlphanum, h, Bool.or_true, Bool.true_or]

/-- What can stand in an identifier stays as it is. -/
theorem identifierSafe_eq_self {table : List Char} (h : table.all Text.isIdentifierPart = true) :
    identifierSafe table = table := by
  rw [List.all_eq_true] at h
  unfold identifierSafe
  refine (List.map_congr_left fun c hc => ?_).trans (List.map_id _)
  rw [if_pos (h c hc)]
  rfl

/-- A prefix that mimics another leads to an alias of the other, with another number. The number
that the prefix ends with goes on in that of the alias, or the table of the other alias begins with
all that comes behind the underscore. -/
theorem exists_aliasChars_eq {start other : List Char} (h : Mimics start other)
    (hother : other.all Text.isIdentifierPart = true) :
    ∃ n m table name, 0 < n ∧ 0 < m ∧ n ≠ m ∧
      aliasChars start n table = aliasChars other m name := by
  obtain ⟨number, rest, hnumber, hrest, rfl⟩ := h
  obtain ⟨n, hn, rfl⟩ := exists_toDigits hnumber
  rcases hrest with rfl | hrest
  · refine ⟨10 * n + 1, 1, [], [], by omega, by omega, by omega, ?_⟩
    unfold aliasChars
    rw [← Nat.toDigits_append_toDigits (by omega) hn (by omega)]
    simp only [List.append_assoc, List.nil_append]
  · obtain ⟨rest, rfl⟩ : ∃ behind, rest = '_' :: behind := by
      cases rest with
      | nil => exact nomatch hrest
      | cons c behind => exact ⟨behind, by rw [Option.some.inj hrest]⟩
    have hsafe : (rest ++ (Nat.toDigits 10 (n + 1) ++ ['_'])).all Text.isIdentifierPart = true := by
      rw [List.all_append, List.all_append, List.all_cons] at hother
      have hdigits : (Nat.toDigits 10 (n + 1)).all Text.isIdentifierPart = true :=
        List.all_eq_true.mpr fun c hc => isIdentifierPart_of_isDigit (isDigit_of_mem_toDigits hc)
      simp only [Bool.and_eq_true] at hother
      rw [List.all_append, List.all_append, hother.2.2, hdigits]
      rfl
    refine ⟨n, n + 1, rest ++ (Nat.toDigits 10 (n + 1) ++ ['_']), [], hn, by omega, by omega, ?_⟩
    unfold aliasChars
    rw [identifierSafe_eq_self hsafe]
    simp only [identifierSafe, List.map_nil, List.append_assoc, List.cons_append]

end AliasIssuer

end Joinery
