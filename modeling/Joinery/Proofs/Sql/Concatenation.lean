import Joinery.Sql.Query
import Mathlib.Tactic.Common

/-!
# Concatenation with an operator and as a call

MySQL has no operator for concatenation, so there a concatenation is a call of `CONCAT`. The tokens
for MySQL differ from those for any other dialect in nothing else: `Tokens.withOperators?` goes
through them once and puts the operator between the two arguments of each call, and what comes out
is what the other dialects write (`Query.concatenation_tokens`). It knows nothing of the expressions
behind the tokens, only which parentheses are open and whether they are those of a call; that it has
an answer already says that all parentheses match and that nothing but `CONCAT` is called
(`closes_of_withOperatorsFrom?`, `isAdmitted_of_withOperatorsFrom?`).

An expression that stands anywhere between other tokens is read by itself, and reading then goes on
behind it (`BecomesIn`); with that the proof follows the constructors.

The tokens are those of `Query.tokens` and `Expr.tokens`.
-/

namespace Joinery

/-! ## From calls to operators -/

/-- What an open parenthesis encloses: the first or the second argument of a call, or anything
else. -/
inductive Enclosed
  | group
  | first
  | second
  deriving DecidableEq, Repr

namespace Tokens

/-- Whether a token is left as it is wherever it stands. -/
def isInert : Token → Bool
  | .function _ | .concat | .openParen | .closeParen | .comma => false
  | _ => true

/-- Whether a token is left as it is, given the parentheses that are open. -/
def stays (opened : List Enclosed) : Token → Bool
  | .comma => opened.head? ≠ some .first && opened.head? ≠ some .second
  | t => isInert t

/-- The tokens with each call `CONCAT(l, r)` replaced by `l`, the operator and `r`, where `l` and
`r` are treated likewise. The parentheses that are already open are given from the inside out. There
is no answer if parentheses do not match, if a call has not two arguments, if anything else is called
or if there is an operator already. -/
def withOperatorsFrom? : List Enclosed → Tokens → Option Tokens
  | [], [] => some []
  | _ :: _, [] => none
  | opened, .function "CONCAT" :: .openParen :: rest => withOperatorsFrom? (.first :: opened) rest
  | .first :: opened, .comma :: .space :: rest =>
    (withOperatorsFrom? (.second :: opened) rest).map ([.space, .concat, .space] ++ ·)
  | .second :: opened, .closeParen :: rest => withOperatorsFrom? opened rest
  | .group :: opened, .closeParen :: rest =>
    (withOperatorsFrom? opened rest).map (.closeParen :: ·)
  | opened, .openParen :: rest => (withOperatorsFrom? (.group :: opened) rest).map (.openParen :: ·)
  | opened, t :: rest =>
    if stays opened t then (withOperatorsFrom? opened rest).map (t :: ·) else none

/-- The tokens of a statement with each call of `CONCAT` replaced by the operator. -/
def withOperators? (ts : Tokens) : Option Tokens :=
  withOperatorsFrom? [] ts

theorem withOperatorsFrom?_of_stays {opened : List Enclosed} {t : Token}
    (h : stays opened t = true) (rest : Tokens) :
    withOperatorsFrom? opened (t :: rest) = (withOperatorsFrom? opened rest).map (t :: ·) := by
  cases t with
  | openParen | closeParen | concat | function => exact nomatch h
  | comma => rcases opened with _ | ⟨_ | _ | _, opened⟩ <;> simp_all [stays, withOperatorsFrom?]
  | _ => simp [stays, isInert, withOperatorsFrom?]

/-- Tokens that have nothing to do with calls stay everywhere. -/
theorem stays_of_isInert {t : Token} (h : isInert t = true) (opened : List Enclosed) :
    stays opened t = true := by
  cases t with
  | comma => exact nomatch h
  | _ => exact h

/-! ## What can be read -/

/-- The tokens close as many parentheses as are open, and every one that they open. -/
def Closes : Nat → Tokens → Prop
  | opened, [] => opened = 0
  | opened, .openParen :: rest => Closes (opened + 1) rest
  | 0, .closeParen :: _ => False
  | opened + 1, .closeParen :: rest => Closes opened rest
  | opened, _ :: rest => Closes opened rest

/-- The parentheses match. -/
def Balanced (ts : Tokens) : Prop :=
  Closes 0 ts

/-- The token is no operator for concatenation and calls no function but `CONCAT`. -/
def IsAdmitted (t : Token) : Prop :=
  t ≠ .concat ∧ ∀ name, t = .function name → name = "CONCAT"

/-- A token that stays opens and closes nothing. -/
theorem closes_cons_of_stays {opened : List Enclosed} {t : Token} (h : stays opened t = true)
    {depth : Nat} {rest : Tokens} (hrest : Closes depth rest) : Closes depth (t :: rest) := by
  cases t with
  | openParen | closeParen => exact nomatch h
  | _ => cases depth <;> exact hrest

theorem isAdmitted_of_stays {opened : List Enclosed} {t : Token} (h : stays opened t = true) :
    IsAdmitted t := by
  cases t with
  | concat | function => exact nomatch h
  | _ => exact ⟨nofun, nofun⟩

/-- Tokens that can be read close the parentheses that are open. -/
theorem closes_of_withOperatorsFrom? {opened : List Enclosed} {ts us : Tokens}
    (h : withOperatorsFrom? opened ts = some us) : Closes opened.length ts := by
  fun_induction withOperatorsFrom? opened ts generalizing us with
  | case1 => exact rfl
  | case2 => exact nomatch h
  | case3 opened rest ih | case5 opened rest ih => exact ih h
  | case4 opened rest ih | case6 opened rest ih | case7 opened rest ih =>
    obtain ⟨vs, hvs, _⟩ := Option.map_eq_some_iff.mp h
    exact ih hvs
  | case8 opened t rest _ _ _ _ _ hstays ih =>
    obtain ⟨vs, hvs, _⟩ := Option.map_eq_some_iff.mp h
    exact closes_cons_of_stays hstays (ih hvs)
  | case9 => exact nomatch h

theorem isAdmitted_of_withOperatorsFrom? {opened : List Enclosed} {ts us : Tokens}
    (h : withOperatorsFrom? opened ts = some us) : ∀ t ∈ ts, IsAdmitted t := by
  have hcall : IsAdmitted (.function "CONCAT") :=
    ⟨nofun, fun _ hname => (Token.function.inj hname).symm⟩
  have hopen : IsAdmitted .openParen := ⟨nofun, nofun⟩
  have hclose : IsAdmitted .closeParen := ⟨nofun, nofun⟩
  have hcomma : IsAdmitted .comma := ⟨nofun, nofun⟩
  have hspace : IsAdmitted .space := ⟨nofun, nofun⟩
  fun_induction withOperatorsFrom? opened ts generalizing us with
  | case1 => exact fun t ht => absurd ht List.not_mem_nil
  | case2 => exact nomatch h
  | case3 opened rest ih =>
    exact List.forall_mem_cons.mpr ⟨hcall, List.forall_mem_cons.mpr ⟨hopen, ih h⟩⟩
  | case4 opened rest ih =>
    obtain ⟨vs, hvs, _⟩ := Option.map_eq_some_iff.mp h
    exact List.forall_mem_cons.mpr ⟨hcomma, List.forall_mem_cons.mpr ⟨hspace, ih hvs⟩⟩
  | case5 opened rest ih => exact List.forall_mem_cons.mpr ⟨hclose, ih h⟩
  | case6 opened rest ih =>
    obtain ⟨vs, hvs, _⟩ := Option.map_eq_some_iff.mp h
    exact List.forall_mem_cons.mpr ⟨hclose, ih hvs⟩
  | case7 opened rest ih =>
    obtain ⟨vs, hvs, _⟩ := Option.map_eq_some_iff.mp h
    exact List.forall_mem_cons.mpr ⟨hopen, ih hvs⟩
  | case8 opened t rest _ _ _ _ _ hstays ih =>
    obtain ⟨vs, hvs, _⟩ := Option.map_eq_some_iff.mp h
    exact List.forall_mem_cons.mpr ⟨isAdmitted_of_stays hstays, ih hvs⟩
  | case9 => exact nomatch h

/-- Each call becomes an operator, those that are open at their first argument too. -/
theorem count_concat_of_withOperatorsFrom? {opened : List Enclosed} {ts us : Tokens}
    (h : withOperatorsFrom? opened ts = some us) :
    us.count .concat = ts.count (.function "CONCAT") + opened.count .first := by
  fun_induction withOperatorsFrom? opened ts generalizing us with
  | case1 =>
    rw [← Option.some.inj h]
    rfl
  | case2 => exact nomatch h
  | case3 opened rest ih =>
    have hrest := ih h
    simp at hrest ⊢
    omega
  | case4 opened rest ih =>
    obtain ⟨vs, hvs, rfl⟩ := Option.map_eq_some_iff.mp h
    have hrest := ih hvs
    simp at hrest ⊢
    omega
  | case5 opened rest ih => simpa using ih h
  | case6 opened rest ih | case7 opened rest ih =>
    obtain ⟨vs, hvs, rfl⟩ := Option.map_eq_some_iff.mp h
    simpa using ih hvs
  | case8 opened t rest _ _ _ _ _ hstays ih =>
    obtain ⟨vs, hvs, rfl⟩ := Option.map_eq_some_iff.mp h
    have hne := isAdmitted_of_stays hstays
    have hrest := ih hvs
    rw [List.count_cons_of_ne, List.count_cons_of_ne]
    · exact hrest
    · rintro rfl
      exact nomatch hstays
    · exact hne.1
  | case9 => exact nomatch h

/-! ## Parts of a statement -/

/-- Within parentheses of some kinds, the first tokens become the second wherever they stand, and
reading goes on behind them as before. -/
def BecomesIn (within : List Enclosed → Prop) (ts us : Tokens) : Prop :=
  ∀ opened, within opened → ∀ rest,
    withOperatorsFrom? opened (ts ++ rest) = (withOperatorsFrom? opened rest).map (us ++ ·)

/-- Wherever the tokens stand, rewriting makes these others of them. -/
def Becomes (ts us : Tokens) : Prop :=
  BecomesIn (fun _ => True) ts us

/-- The innermost parenthesis is not that of a call. -/
def NotInCall (opened : List Enclosed) : Prop :=
  opened.head? ≠ some .first ∧ opened.head? ≠ some .second

section Parts

variable {within : List Enclosed → Prop} {ts us vs ws : Tokens}

/-- What is rewritten everywhere is rewritten within any bounds. -/
theorem Becomes.becomesIn (h : Becomes ts us) : BecomesIn within ts us :=
  fun opened _ => h opened trivial

theorem BecomesIn.nil : BecomesIn within [] [] := by
  intro opened _ rest
  simp

theorem BecomesIn.append (h : BecomesIn within ts us) (h' : BecomesIn within vs ws) :
    BecomesIn within (ts ++ vs) (us ++ ws) := by
  intro opened hwithin rest
  rw [List.append_assoc, h opened hwithin, h' opened hwithin, Option.map_map]
  congr 1
  funext more
  exact (List.append_assoc us ws more).symm

/-- A token that stays is followed by the rest as it is rewritten. -/
theorem BecomesIn.cons {t : Token} (ht : ∀ opened, within opened → stays opened t = true)
    (h : BecomesIn within ts us) : BecomesIn within (t :: ts) (t :: us) := by
  intro opened hwithin rest
  rw [List.cons_append, withOperatorsFrom?_of_stays (ht opened hwithin), h opened hwithin,
    Option.map_map]
  rfl

/-- Tokens that stay wherever they stand become themselves. -/
theorem BecomesIn.inert (h : ts.all isInert = true) : BecomesIn within ts ts := by
  induction ts with
  | nil => exact .nil
  | cons t ts ih =>
    rw [List.all_cons, Bool.and_eq_true] at h
    exact .cons (fun opened _ => stays_of_isInert h.1 opened) (ih h.2)

/-- Parts of a list are rewritten each for itself. -/
theorem BecomesIn.flatMap {α : Type} {before after : α → Tokens}
    (h : ∀ x, BecomesIn within (before x) (after x)) (xs : List α) :
    BecomesIn within (xs.flatMap before) (xs.flatMap after) := by
  induction xs with
  | nil => exact .nil
  | cons x xs ih => exact (h x).append ih

/-- A part that may be missing is rewritten if it is there. -/
theorem BecomesIn.elim {α : Type} {before after : α → Tokens}
    (h : ∀ x, BecomesIn within (before x) (after x)) (present : Option α) :
    BecomesIn within (present.elim [] before) (present.elim [] after) := by
  cases present with
  | none => exact .nil
  | some x => exact h x

/-- Commas stay as they are in parentheses that are not those of a call. -/
theorem BecomesIn.comma (h : BecomesIn NotInCall ts us) :
    BecomesIn NotInCall (.comma :: ts) (.comma :: us) := by
  refine h.cons fun opened hwithin => ?_
  simp [stays, hwithin.1, hwithin.2]

/-- What is between parentheses may hold commas. -/
theorem Becomes.parens (h : BecomesIn NotInCall ts us) :
    Becomes (.openParen :: ts ++ [Token.closeParen]) (.openParen :: us ++ [Token.closeParen]) := by
  intro opened _ rest
  have hinner := h (.group :: opened) ⟨by simp, by simp⟩ (.closeParen :: rest)
  simp only [List.cons_append, List.append_assoc, List.nil_append, withOperatorsFrom?] at hinner ⊢
  rw [hinner, Option.map_map, Option.map_map]
  rfl

/-- A call becomes an operator between its arguments. -/
theorem Becomes.call (h : Becomes ts us) (h' : Becomes vs ws) :
    Becomes
      ([Token.function "CONCAT", .openParen] ++ ts ++ [Token.comma, .space] ++ vs
        ++ [Token.closeParen])
      (us ++ [Token.space, .concat, .space] ++ ws) := by
  intro opened _ rest
  have hsecond := h' (.second :: opened) trivial (.closeParen :: rest)
  have hfirst := h (.first :: opened) trivial (.comma :: .space :: (vs ++ .closeParen :: rest))
  simp only [List.cons_append, List.append_assoc, List.nil_append, withOperatorsFrom?]
    at hfirst hsecond ⊢
  rw [hfirst, hsecond, Option.map_map, Option.map_map]
  rfl

end Parts

end Tokens

open Tokens

/-! ## Expressions -/

namespace Expr

mutual
/-- How many concatenations an expression has. -/
def concatenations : Expr → Nat
  | column _ _ => 0
  | string _ => 0
  | binary op left right =>
    (if op = .concat then 1 else 0) + concatenations left + concatenations right
  | isIn subject members _ => concatenations subject + concatenationsAmong members
  | paren inner => concatenations inner

/-- The concatenations in a list of expressions. -/
def concatenationsAmong : List Expr → Nat
  | [] => 0
  | e :: rest => concatenations e + concatenationsAmong rest
end

mutual
/-- How many of them are not written: a membership in no list is written without its subject. -/
def unwritten : Expr → Nat
  | column _ _ => 0
  | string _ => 0
  | binary _ left right => unwritten left + unwritten right
  | isIn subject [] _ => concatenations subject
  | isIn subject (first :: others) _ => unwritten subject + unwritten first + unwrittenAmong others
  | paren inner => unwritten inner

/-- The concatenations in a list of expressions that are not written at all. -/
def unwrittenAmong : List Expr → Nat
  | [] => 0
  | e :: rest => unwritten e + unwrittenAmong rest
end

/-- Membership in nothing is written without calls. -/
theorem becomes_emptyMembership (negated : Bool) :
    Becomes (emptyMembership negated) (emptyMembership negated) := by
  cases negated <;> exact .inert rfl

/-- Every operator but that of concatenation is written alike everywhere. -/
theorem becomes_operator {op : BinaryOp} (h : op ≠ .concat) :
    Becomes [.space, op.token, .space] [.space, op.token, .space] := by
  cases op with
  | concat => exact absurd rfl h
  | _ => exact .inert rfl

theorem becomes_negation (negated : Bool) :
    Becomes (if negated then [.space, .keyword .NOT] else [])
      (if negated then [.space, .keyword .NOT] else []) := by
  cases negated <;> exact .inert rfl

/-- The tokens of a membership: subject, negation, and the members in parentheses. -/
theorem tokens_isIn (d : Dialect) (subject first : Expr) (others : List Expr) (negated : Bool) :
    (isIn subject (first :: others) negated).tokens d
      = subject.tokens d ++ (if negated then [Token.space, .keyword .NOT] else [])
        ++ [Token.space, .keyword .IN, .space]
        ++ (.openParen :: (first.tokens d ++ tokensAfterComma d others) ++ [Token.closeParen]) := by
  simp [tokens]

mutual
/-- What is written for MySQL becomes what is written for a dialect with an operator. -/
theorem becomes_tokens {d : Dialect} (hd : d.hasConcatOperator = true) :
    (e : Expr) → Becomes (e.tokens .mysql) (e.tokens d)
  | .column none name => .inert rfl
  | .column (some table) name => .inert rfl
  | .string value => .inert rfl
  | .binary op left right => by
    have hleft := left.becomes_tokens hd
    have hright := right.becomes_tokens hd
    have hwritten : (binary op left right).tokens d
        = left.tokens d ++ [Token.space, op.token, .space] ++ right.tokens d := by
      rw [tokens, if_neg (fun h => h.2 hd)]
    rw [hwritten, tokens]
    by_cases hop : op = .concat
    · rw [if_pos ⟨hop, by decide⟩, hop]
      exact .call hleft hright
    · rw [if_neg (fun h => hop h.1)]
      exact (BecomesIn.append hleft (becomes_operator hop)).append hright
  | .isIn _ [] negated => by
    rw [tokens, tokens]
    exact becomes_emptyMembership negated
  | .isIn subject (first :: others) negated => by
    have hsubject := subject.becomes_tokens hd
    have hfirst := first.becomes_tokens hd
    have hothers := becomesIn_tokensAfterComma hd others
    have hin : Becomes [.space, .keyword .IN, .space] [.space, .keyword .IN, .space] := .inert rfl
    have hmembers : BecomesIn NotInCall (first.tokens .mysql ++ tokensAfterComma .mysql others)
        (first.tokens d ++ tokensAfterComma d others) :=
      hfirst.becomesIn.append hothers
    rw [tokens_isIn, tokens_isIn]
    exact ((BecomesIn.append hsubject (becomes_negation negated)).append hin).append
      (Becomes.parens hmembers)
  | .paren inner => by
    rw [tokens, tokens]
    exact .parens (inner.becomes_tokens hd).becomesIn

/-- Members of a list are rewritten one after another. -/
theorem becomesIn_tokensAfterComma {d : Dialect} (hd : d.hasConcatOperator = true) :
    (es : List Expr) →
      BecomesIn NotInCall (tokensAfterComma .mysql es) (tokensAfterComma d es)
  | [] => .nil
  | e :: rest => by
    have he : BecomesIn NotInCall (e.tokens .mysql) (e.tokens d) := (e.becomes_tokens hd).becomesIn
    have hrest := becomesIn_tokensAfterComma hd rest
    have hspace : BecomesIn NotInCall [.space] [.space] := .inert rfl
    rw [tokensAfterComma, tokensAfterComma, List.append_assoc, List.append_assoc]
    exact .comma (hspace.append (he.append hrest))
end

mutual
/-- An operator is written for each concatenation that is written at all. -/
theorem count_concat_tokens {d : Dialect} (hd : d.hasConcatOperator = true) :
    (e : Expr) → (e.tokens d).count .concat + e.unwritten = e.concatenations
  | .column none name => by simp [tokens, unwritten, concatenations]
  | .column (some table) name => by simp [tokens, unwritten, concatenations]
  | .string value => by simp [tokens, unwritten, concatenations]
  | .binary op left right => by
    have hleft := left.count_concat_tokens hd
    have hright := right.count_concat_tokens hd
    have hop : List.count .concat [.space, op.token, .space] = if op = .concat then 1 else 0 := by
      cases op <;> rfl
    rw [tokens, if_neg (fun h => h.2 hd), unwritten, concatenations, List.count_append,
      List.count_append, hop]
    omega
  | .isIn subject [] negated => by
    cases negated <;> simp [tokens, emptyMembership, unwritten, concatenations, concatenationsAmong]
  | .isIn subject (first :: others) negated => by
    have hsubject := subject.count_concat_tokens hd
    have hfirst := first.count_concat_tokens hd
    have hothers := count_concat_tokensAfterComma hd others
    rw [tokens_isIn, unwritten, concatenations, concatenationsAmong]
    cases negated <;> simp <;> omega
  | .paren inner => by
    have hinner := inner.count_concat_tokens hd
    rw [tokens, unwritten, concatenations]
    simpa using hinner

/-- Among the members as many operators are written as there are concatenations, less those that
are dropped. -/
theorem count_concat_tokensAfterComma {d : Dialect} (hd : d.hasConcatOperator = true) :
    (es : List Expr) →
      (tokensAfterComma d es).count .concat + unwrittenAmong es = concatenationsAmong es
  | [] => rfl
  | e :: rest => by
    have he := e.count_concat_tokens hd
    have hrest := count_concat_tokensAfterComma hd rest
    rw [tokensAfterComma, unwrittenAmong, concatenationsAmong]
    simp
    omega
end

theorem concatenationsAmong_append (es fs : List Expr) :
    concatenationsAmong (es ++ fs) = concatenationsAmong es + concatenationsAmong fs := by
  induction es with
  | nil => simp [concatenationsAmong]
  | cons e es ih => simp [concatenationsAmong, ih, Nat.add_assoc]

theorem unwrittenAmong_append (es fs : List Expr) :
    unwrittenAmong (es ++ fs) = unwrittenAmong es + unwrittenAmong fs := by
  induction es with
  | nil => simp [unwrittenAmong]
  | cons e es ih => simp [unwrittenAmong, ih, Nat.add_assoc]

/-- The tokens have one operator for each concatenation of the expressions that is written. -/
def OperatorsOf (es : List Expr) (ts : Tokens) : Prop :=
  ts.count .concat + unwrittenAmong es = concatenationsAmong es

/-- Tokens without the operator have none to count. -/
theorem operatorsOf_nil {ts : Tokens} (h : .concat ∉ ts) : OperatorsOf [] ts :=
  List.count_eq_zero.mpr h

/-- An expression has the operators of its concatenations. -/
theorem operatorsOf_tokens {d : Dialect} (hd : d.hasConcatOperator = true) (e : Expr) :
    OperatorsOf [e] (e.tokens d) :=
  e.count_concat_tokens hd

theorem OperatorsOf.append {ts us : Tokens} {es fs : List Expr} (h : OperatorsOf es ts)
    (h' : OperatorsOf fs us) : OperatorsOf (es ++ fs) (ts ++ us) := by
  unfold OperatorsOf at *
  rw [List.count_append, concatenationsAmong_append, unwrittenAmong_append]
  omega

theorem OperatorsOf.flatMap {α : Type} {among : α → List Expr} {tokensOf : α → Tokens}
    (h : ∀ x, OperatorsOf (among x) (tokensOf x)) (xs : List α) :
    OperatorsOf (xs.flatMap among) (xs.flatMap tokensOf) := by
  induction xs with
  | nil => exact rfl
  | cons x xs ih => exact (h x).append ih

/-- A part that may be missing has operators if it is there. -/
theorem OperatorsOf.elim {tokensOf : Expr → Tokens} (h : ∀ e, OperatorsOf [e] (tokensOf e))
    (present : Option Expr) : OperatorsOf present.toList (present.elim [] tokensOf) := by
  cases present with
  | none => exact rfl
  | some e => exact h e

end Expr

/-! ## Queries -/

theorem TableRef.becomes_tokens (t : TableRef) : Becomes t.tokens t.tokens := by
  obtain ⟨name, _ | tableAlias⟩ := t <;> exact .inert rfl

theorem TableRef.concat_notMem_tokens (t : TableRef) : .concat ∉ t.tokens := by
  obtain ⟨name, _ | tableAlias⟩ := t <;> simp [TableRef.tokens]

/-- The tokens of a join, with the condition at the end. -/
theorem Join.tokens_eq (d : Dialect) (j : Join) :
    j.tokens d = (j.kind.keywords.flatMap fun k => [Token.keyword k, .space])
      ++ [Token.keyword .JOIN, .space] ++ j.table.tokens
      ++ j.condition.elim [] fun e => .space :: .keyword .ON :: .space :: e.tokens d := by
  obtain ⟨kind, table, _ | e⟩ := j <;> rfl

/-- The tokens of a query: select list, source, joins and filter. -/
theorem Query.tokens_eq (d : Dialect) (q : Query) :
    q.tokens d = [Token.keyword .SELECT] ++ selectTokens d q.select
      ++ (q.source.elim [] fun t => .newline :: .keyword .FROM :: .space :: t.tokens)
      ++ (q.joins.flatMap fun j => .newline :: j.tokens d)
      ++ q.filter.elim [] fun e => .newline :: .keyword .WHERE :: .space :: e.tokens d := by
  obtain ⟨select, _ | source, joins, _ | filter⟩ := q <;> rfl

section Clauses

variable {d : Dialect} (hd : d.hasConcatOperator = true)

include hd

/-- A select item is rewritten by its expression. -/
theorem SelectItem.becomes_tokens (item : SelectItem) :
    Becomes (item.tokens .mysql) (item.tokens d) := by
  have hexpr := item.expr.becomes_tokens hd
  obtain ⟨e, _ | output⟩ := item
  · exact BecomesIn.append hexpr .nil
  · exact BecomesIn.append hexpr (.inert rfl)

/-- A select item has the operators of its expression. -/
theorem SelectItem.operatorsOf_tokens (item : SelectItem) :
    Expr.OperatorsOf [item.expr] (item.tokens d) := by
  refine (Expr.operatorsOf_tokens hd item.expr).append (Expr.operatorsOf_nil ?_)
  cases item.output <;> simp

theorem Join.becomes_tokens (j : Join) : Becomes (j.tokens .mysql) (j.tokens d) := by
  have hkeywords : Becomes (j.kind.keywords.flatMap fun k => [Token.keyword k, .space])
      (j.kind.keywords.flatMap fun k => [Token.keyword k, .space]) :=
    .flatMap (fun _ => .inert rfl) _
  have hjoin : Becomes [.keyword .JOIN, .space] [.keyword .JOIN, .space] := .inert rfl
  have hon : Becomes [.space, .keyword .ON, .space] [.space, .keyword .ON, .space] := .inert rfl
  have hcondition := BecomesIn.elim
    (fun e : Expr => BecomesIn.append hon (e.becomes_tokens hd)) j.condition
  rw [Join.tokens_eq, Join.tokens_eq]
  exact ((hkeywords.append hjoin).append j.table.becomes_tokens).append hcondition

/-- A join has the operators of its condition. -/
theorem Join.operatorsOf_tokens (j : Join) :
    Expr.OperatorsOf j.condition.toList (j.tokens d) := by
  have hbefore : Expr.OperatorsOf []
      ((j.kind.keywords.flatMap fun k => [Token.keyword k, .space]) ++ [Token.keyword .JOIN, .space]
        ++ j.table.tokens) :=
    Expr.operatorsOf_nil (by simp [j.table.concat_notMem_tokens])
  have hon : Expr.OperatorsOf [] [.space, .keyword .ON, .space] := Expr.operatorsOf_nil (by simp)
  have hcondition := Expr.OperatorsOf.elim
    (fun e : Expr => hon.append (Expr.operatorsOf_tokens hd e)) j.condition
  rw [Join.tokens_eq]
  exact hbefore.append hcondition

end Clauses

namespace Query

/-- The expressions of a query: those it selects, the conditions of its joins and its filter. -/
def expressions (q : Query) : List Expr :=
  q.select.map (·.expr) ++ q.joins.flatMap (·.condition.toList) ++ q.filter.toList

/-- How many concatenations a query has. -/
def concatenations (q : Query) : Nat :=
  Expr.concatenationsAmong q.expressions

/-- How many of them stand in the subject of a membership in no list and so are not written. -/
def unwritten (q : Query) : Nat :=
  Expr.unwrittenAmong q.expressions

variable {d : Dialect} (hd : d.hasConcatOperator = true)

include hd

/-- The select list is rewritten item by item. -/
theorem becomes_selectTokens (items : List SelectItem) :
    BecomesIn NotInCall (selectTokens .mysql items) (selectTokens d items) := by
  cases items with
  | nil => exact .nil
  | cons item rest =>
    have hitem : BecomesIn NotInCall (item.tokens .mysql) (item.tokens d) :=
      (item.becomes_tokens hd).becomesIn
    have hline : BecomesIn NotInCall [.newline, .indent 1] [.newline, .indent 1] := .inert rfl
    have hrest : BecomesIn NotInCall
        (rest.flatMap fun next => [Token.comma, .newline, .indent 1] ++ next.tokens .mysql)
        (rest.flatMap fun next => [Token.comma, .newline, .indent 1] ++ next.tokens d) :=
      .flatMap (fun next => .comma (hline.append (next.becomes_tokens hd).becomesIn)) rest
    exact (hline.append hitem).append hrest

/-- The select list has the operators of its items. -/
theorem operatorsOf_selectTokens (items : List SelectItem) :
    Expr.OperatorsOf (items.map (·.expr)) (selectTokens d items) := by
  cases items with
  | nil => exact rfl
  | cons item rest =>
    have hline : Expr.OperatorsOf [] [.newline, .indent 1] := Expr.operatorsOf_nil (by simp)
    have hnext : Expr.OperatorsOf [] [.comma, .newline, .indent 1] :=
      Expr.operatorsOf_nil (by simp)
    have hrest := Expr.OperatorsOf.flatMap
      (fun next : SelectItem => hnext.append (next.operatorsOf_tokens hd)) rest
    rw [List.map_cons, List.map_eq_flatMap]
    exact (hline.append (item.operatorsOf_tokens hd)).append hrest

/-- A query is rewritten part by part. -/
theorem becomesIn_tokens (q : Query) : BecomesIn NotInCall (q.tokens .mysql) (q.tokens d) := by
  have hselect : BecomesIn NotInCall [.keyword .SELECT] [.keyword .SELECT] := .inert rfl
  have hitems := hselect.append (becomes_selectTokens hd q.select)
  have hfrom : BecomesIn NotInCall [.newline, .keyword .FROM, .space]
      [.newline, .keyword .FROM, .space] := .inert rfl
  have hsource := BecomesIn.elim
    (fun t : TableRef => hfrom.append t.becomes_tokens.becomesIn) q.source
  have hnewline : BecomesIn NotInCall [.newline] [.newline] := .inert rfl
  have hjoins := BecomesIn.flatMap
    (fun j : Join => hnewline.append (j.becomes_tokens hd).becomesIn) q.joins
  have hwhere : BecomesIn NotInCall [.newline, .keyword .WHERE, .space]
      [.newline, .keyword .WHERE, .space] := .inert rfl
  have hfilter := BecomesIn.elim
    (fun e : Expr => hwhere.append (e.becomes_tokens hd).becomesIn) q.filter
  rw [tokens_eq, tokens_eq]
  exact ((hitems.append hsource).append hjoins).append hfilter

/-- A query has as many operators as concatenations, less those that are not written. -/
theorem count_concat_tokens (q : Query) :
    (q.tokens d).count .concat + q.unwritten = q.concatenations := by
  have hselect : Expr.OperatorsOf [] [.keyword .SELECT] := Expr.operatorsOf_nil (by simp)
  have hitems := hselect.append (operatorsOf_selectTokens hd q.select)
  have hsource : Expr.OperatorsOf []
      (q.source.elim [] fun t => .newline :: .keyword .FROM :: .space :: t.tokens) := by
    refine Expr.operatorsOf_nil ?_
    cases q.source with
    | none => exact List.not_mem_nil
    | some t => simp [t.concat_notMem_tokens]
  have hnewline : Expr.OperatorsOf [] [.newline] := Expr.operatorsOf_nil (by simp)
  have hjoins := Expr.OperatorsOf.flatMap
    (fun j : Join => hnewline.append (j.operatorsOf_tokens hd)) q.joins
  have hwhere : Expr.OperatorsOf [] [.newline, .keyword .WHERE, .space] :=
    Expr.operatorsOf_nil (by simp)
  have hfilter := Expr.OperatorsOf.elim
    (fun e : Expr => hwhere.append (Expr.operatorsOf_tokens hd e)) q.filter
  have hall := ((hitems.append hsource).append hjoins).append hfilter
  rw [tokens_eq]
  simp only [List.nil_append, List.append_nil] at hall
  exact hall

omit hd

/-- What is written for MySQL has no operator for concatenation. Instead it calls `CONCAT` once for
each concatenation that is written, and nothing else is called. All parentheses match, and with
operators for the calls the tokens are those of any other dialect, so the other dialects have the
same tokens. -/
theorem concatenation_tokens (q : Query) :
    .concat ∉ q.tokens .mysql
      ∧ (q.tokens .mysql).count (.function "CONCAT") + q.unwritten = q.concatenations
      ∧ (∀ name, .function name ∈ q.tokens .mysql → name = "CONCAT")
      ∧ Balanced (q.tokens .mysql)
      ∧ (∀ d, d ≠ .mysql → withOperators? (q.tokens .mysql) = some (q.tokens d))
      ∧ ∀ d d', d ≠ .mysql → d' ≠ .mysql → q.tokens d = q.tokens d' := by
  have hreads : ∀ d : Dialect, d ≠ .mysql → withOperators? (q.tokens .mysql) = some (q.tokens d) := by
    intro d hd
    have hoperator : d.hasConcatOperator = true := by
      cases d <;> first | rfl | exact absurd rfl hd
    simpa [withOperators?, withOperatorsFrom?] using
      becomesIn_tokens hoperator q [] ⟨nofun, nofun⟩ []
  have hgeneric := hreads .generic (by decide)
  have hadmitted := isAdmitted_of_withOperatorsFrom? hgeneric
  have hcount := count_concat_of_withOperatorsFrom? hgeneric
  rw [List.count_nil, Nat.add_zero] at hcount
  refine ⟨fun hconcat => (hadmitted _ hconcat).1 rfl, ?_, fun name hname => ?_,
    closes_of_withOperatorsFrom? hgeneric, hreads, fun d d' hd hd' => ?_⟩
  · rw [← hcount]
    exact count_concat_tokens rfl q
  · exact (hadmitted _ hname).2 name rfl
  · exact Option.some.inj ((hreads d hd).symm.trans (hreads d' hd'))

/-- A query with concatenations in each of its clauses, in one another, in a comparison, in a list
and in parentheses. -/
def labels : Query where
  select :=
    [⟨.binary .concat (.column (some "p") "code")
      (.paren (.binary .concat (.string "-") (.column (some "p") "size"))), some "label"⟩]
  source := some ⟨.ofText "parts", some "p"⟩
  joins :=
    [⟨.left, ⟨.ofText "shop.boxes", some "b"⟩,
      some (.binary .eq (.column (some "b") "label")
        (.binary .concat (.column (some "p") "code") (.string "x")))⟩]
  filter := some (.isIn (.binary .concat (.column none "kind") (.string "s"))
    [.string "nuts", .binary .concat (.string "bol") (.string "ts")] true)

/-- Five concatenations, in the select list, a condition and the filter, one of them in a list of
members. -/
theorem concatenation_tokens_labels :
    labels.concatenations = 5 ∧ (labels.tokens .mysql).count (.function "CONCAT") = 5
      ∧ Dialect.tsql ≠ .mysql
      ∧ withOperators? (labels.tokens .mysql) = some (labels.tokens .tsql) := by
  have h := labels.concatenation_tokens
  have hconcatenations : labels.concatenations = 5 := by decide
  have hunwritten : labels.unwritten = 0 := by decide
  have hcalls := h.2.1
  exact ⟨hconcatenations, by omega, by decide, h.2.2.2.2.1 .tsql (by decide)⟩

/-- Membership in no list is written without its subject, and so without a call for a concatenation
in it. -/
theorem not_forall_count_eq_concatenations :
    ¬ ∀ q : Query, (q.tokens .mysql).count (.function "CONCAT") = q.concatenations := by
  intro h
  have hsubject := h
    { select := [⟨.isIn (.binary .concat (.column none "a") (.column none "b")) [] false, none⟩] }
  exact absurd hsubject (by decide)

end Query

end Joinery
