import Joinery.Proofs.Alias.Uniqueness
import Joinery.Settings.Basic

/-!
# Prefixes that settings accept

Settings are checked for each prefix by itself: it must be a plain identifier. Whether the two
prefixes together keep aliases apart is not looked at. A plain identifier may end in digits, or
in digits and more behind an underscore, and so it may mimic another one.

`nodup_issue_iff_apart` says which of the accepted prefixes are good: those of which neither
mimics the other. For any others there are requests that are answered with one alias twice.

The check is `Settings.check`, and the aliases are those of `Settings.aliasIssuer`.
-/

namespace Joinery

namespace AliasIssuer

/-- Two requests can be put at any two places of a script. -/
theorem exists_getElem?_eq {α : Type} {i j : Nat} (hij : i < j) (first second : α) :
    ∃ calls : List α, calls[i]? = some first ∧ calls[j]? = some second := by
  refine ⟨(List.range (j + 1)).map fun k => if k = i then first else second, ?_, ?_⟩
  · rw [List.getElem?_map, List.getElem?_range (by omega), Option.map_some, if_pos rfl]
  · rw [List.getElem?_map, List.getElem?_range (by omega), Option.map_some, if_neg (by omega)]

/-- Where two aliases with different numbers are the same, an issuer that has not come to these
numbers yet can be led to issue both. -/
theorem exists_not_nodup_issue {a : AliasIssuer} {n m : Nat} (hn : a.issued < n) (hnm : n < m)
    {role other : Role} {table name : String}
    (h : aliasChars (a.prefixOf role).toList n table.toList =
      aliasChars (a.prefixOf other).toList m name.toList) :
    ∃ calls, ¬ (a.issue calls).1.Nodup := by
  obtain ⟨calls, hfirst, hsecond⟩ := exists_getElem?_eq
    (show n - a.issued - 1 < m - a.issued - 1 by omega) (table, role) (name, other)
  have hn' : a.issued + (n - a.issued - 1) + 1 = n := by omega
  have hm' : a.issued + (m - a.issued - 1) + 1 = m := by omega
  have hnth := a.getElem?_issue calls (n - a.issued - 1)
  have hmth := a.getElem?_issue calls (m - a.issued - 1)
  rw [hfirst, Option.map_some, hn'] at hnth
  rw [hsecond, Option.map_some, hm'] at hmth
  refine ⟨calls, fun hnodup => ?_⟩
  rw [List.nodup_iff_getElem?_ne_getElem?] at hnodup
  refine hnodup _ _ (show n - a.issued - 1 < m - a.issued - 1 by omega) ?_ ?_
  · exact (List.getElem?_eq_some_iff.mp hmth).1
  · rw [hnth, hmth, h]

/-- If one prefix mimics the other, some script gets an alias twice. -/
theorem exists_not_nodup_issue_of_mimics {a : AliasIssuer} (ha : a.issued = 0) (role other : Role)
    (h : Mimics (a.prefixOf role).toList (a.prefixOf other).toList)
    (hother : (a.prefixOf other).toList.all Text.isIdentifierPart = true) :
    ∃ calls, ¬ (a.issue calls).1.Nodup := by
  obtain ⟨n, m, table, name, hn, hm, hne, heq⟩ := exists_aliasChars_eq h hother
  rw [← String.toList_ofList (l := table), ← String.toList_ofList (l := name)] at heq
  rcases Nat.lt_or_gt_of_ne hne with hlt | hgt
  · exact exists_not_nodup_issue (by omega) hlt heq
  · exact exists_not_nodup_issue (by omega) hgt heq.symm

end AliasIssuer

namespace Settings

/-- The check lets prefixes pass exactly if both are plain identifiers. -/
theorem check_eq_ok_iff {s : Settings} :
    s.check = .ok () ↔ Text.isPlainIdentifier s.rootPrefix.toList = true ∧
      Text.isPlainIdentifier s.joinPrefix.toList = true := by
  unfold check checkPrefix
  cases Text.isPlainIdentifier s.rootPrefix.toList with
  | false => exact iff_of_false (fun h => nomatch h) (by simp)
  | true =>
    cases Text.isPlainIdentifier s.joinPrefix.toList with
    | false => exact iff_of_false (fun h => nomatch h) (by simp)
    | true => exact iff_of_true rfl ⟨rfl, rfl⟩

/-- The aliases that accepted settings lead to are all different, whatever is asked for, exactly if
neither prefix mimics the other. Requests are counted without bound here. With a counter of 64 bits
prefixes that are apart are good for the first 2^64 requests, and others give an alias twice if the
number by which one mimics the other is below 2^64. -/
theorem nodup_issue_iff_apart {s : Settings} (h : s.check = .ok ()) :
    (∀ calls, (s.aliasIssuer.issue calls).1.Nodup) ↔ s.aliasIssuer.Apart := by
  obtain ⟨hroot, hjoin⟩ := check_eq_ok_iff.mp h
  constructor
  · intro hall
    constructor
    · intro hmimics
      obtain ⟨calls, hrepeats⟩ := AliasIssuer.exists_not_nodup_issue_of_mimics
        (a := s.aliasIssuer) rfl .root .joined hmimics
        (Text.all_isIdentifierPart_of_isPlainIdentifier hjoin)
      exact hrepeats (hall calls)
    · intro hmimics
      obtain ⟨calls, hrepeats⟩ := AliasIssuer.exists_not_nodup_issue_of_mimics
        (a := s.aliasIssuer) rfl .joined .root hmimics
        (Text.all_isIdentifierPart_of_isPlainIdentifier hroot)
      exact hrepeats (hall calls)
  · exact fun hapart => AliasIssuer.nodup_issue hapart

end Settings

namespace Warehouse

/-- One prefix is the other with a digit and a letter behind it: no alias with the shorter prefix
has a letter there. -/
def letterSettings : Settings :=
  { rootPrefix := "t", joinPrefix := "t1a" }

/-- The prefixes `t` and `t1a` pass the check together, and never give an alias twice. -/
theorem nodup_issue_letterSettings :
    letterSettings.check = .ok () ∧ ∀ calls, (letterSettings.aliasIssuer.issue calls).1.Nodup := by
  have hcheck : letterSettings.check = .ok () := by decide +kernel
  refine ⟨hcheck, (Settings.nodup_issue_iff_apart hcheck).mpr ⟨?_, ?_⟩⟩
  · intro ⟨number, rest, ⟨hne, hdigits, _⟩, hrest, h⟩
    have hmore : ['1', 'a'] = number ++ rest := (List.cons.inj h).2
    rcases number with _ | ⟨c, _ | ⟨d, digits⟩⟩
    · exact hne rfl
    · have hletter : ['a'] = rest := (List.cons.inj hmore).2
      rw [← hletter] at hrest
      exact absurd hrest (by decide)
    · have hd : 'a' = d := (List.cons.inj (List.cons.inj hmore).2).1
      exact absurd (hdigits d (by simp)) (by rw [← hd]; decide)
  · intro ⟨number, rest, _, _, h⟩
    exact nomatch (List.cons.inj h).2

/-- Settings are accepted whose prefixes do not keep aliases apart: here a root and a node that is
joined to it get the same. -/
theorem not_forall_nodup_issue :
    ¬ ∀ s : Settings, s.check = .ok () → ∀ calls, (s.aliasIssuer.issue calls).1.Nodup := by
  intro h
  have hnodup := h { rootPrefix := "t", joinPrefix := "t1_" } (by decide +kernel)
    [("2_x", .root), ("x", .joined)]
  exact absurd hnodup (by decide +kernel)

end Warehouse

end Joinery
