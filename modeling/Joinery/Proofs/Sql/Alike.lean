import Joinery.Sql.Expr

/-!
# Expressions that differ in their grouping only

Parentheses are part of an expression, and `a AND (b AND c)` is another expression than
`(a AND b) AND c`. Both differences say nothing about the values: `Alike` is equality but for
parentheses and for how chains of conjunctions and of concatenations are nested.

Every expression has one plain form that it is alike with, with no parentheses and with all chains
nested to the right (`plain`), so that two expressions are alike if their plain forms are equal
(`alike_iff`). How many operands a chain has left of some place can be read off from how wide they
are, so a chain can be cut in two at one place only (`chain_cut`, `link_inj`).
-/

namespace Joinery

/-- Whether a chain of the operator has the same value however it is nested. -/
def BinaryOp.isAssociative : BinaryOp → Bool
  | and | concat => true
  | eq | ne | like => false

namespace Expr

/-- Equal but for parentheses, and for the nesting of chains of operators that associate. -/
inductive Alike : Expr → Expr → Prop
  | refl (e : Expr) : Alike e e
  | symm {e f : Expr} : Alike e f → Alike f e
  | trans {e f g : Expr} : Alike e f → Alike f g → Alike e g
  | paren (inner : Expr) : Alike (paren inner) inner
  | assoc {op : BinaryOp} (h : op.isAssociative = true) (e f g : Expr) :
    Alike (binary op (binary op e f) g) (binary op e (binary op f g))
  | binary (op : BinaryOp) {left left' right right' : Expr} :
    Alike left left' → Alike right right' → Alike (binary op left right) (binary op left' right')
  | subject (members : List Expr) (negated : Bool) {subject subject' : Expr} :
    Alike subject subject' → Alike (isIn subject members negated) (isIn subject' members negated)
  | member (subject : Expr) (before after : List Expr) (negated : Bool) {member member' : Expr} :
    Alike member member' →
    Alike (isIn subject (before ++ member :: after) negated)
      (isIn subject (before ++ member' :: after) negated)

/-! ## Plain forms -/

/-- A chain, of one in its plain form and what comes after it. -/
def chain (op : BinaryOp) : Expr → Expr → Expr
  | binary other first second, right =>
    if other = op then binary op first (chain op second right)
    else binary op (binary other first second) right
  | left, right => binary op left right

/-- The plain form of an operation, from those of its operands. -/
def link (op : BinaryOp) (left right : Expr) : Expr :=
  if op.isAssociative then chain op left right else binary op left right

mutual
/-- The expression without parentheses, and with chains nested to the right. -/
def plain : Expr → Expr
  | binary op left right => link op (plain left) (plain right)
  | isIn subject members negated => isIn (plain subject) (plainAll members) negated
  | paren inner => plain inner
  | e => e

/-- The plain forms of the expressions of a list. -/
def plainAll : List Expr → List Expr
  | [] => []
  | e :: rest => plain e :: plainAll rest
end

theorem plainAll_eq_map (es : List Expr) : plainAll es = es.map plain := by
  induction es with
  | nil => rfl
  | cons e rest ih => rw [plainAll, ih, List.map_cons]

/-- An operation is plain once its operands are and chains hang to the right. -/
@[simp] theorem plain_binary (op : BinaryOp) (left right : Expr) :
    plain (binary op left right) = link op (plain left) (plain right) := by
  rw [plain]

/-- A membership is plain once its subject and its members are. -/
@[simp] theorem plain_isIn (subject : Expr) (members : List Expr) (negated : Bool) :
    plain (isIn subject members negated) = isIn (plain subject) (members.map plain) negated := by
  rw [plain, plainAll_eq_map]

/-- Parentheses have no part in the plain form. -/
@[simp] theorem plain_paren (inner : Expr) : plain (paren inner) = plain inner := by
  rw [plain]

/-- A chain goes on at the right end of its first part. -/
theorem chain_same (op : BinaryOp) (first second right : Expr) :
    chain op (binary op first second) right = binary op first (chain op second right) :=
  if_pos rfl

/-- What is no chain of the operator is the first operand of one. -/
theorem chain_of_ne {op : BinaryOp} {left : Expr} (h : ∀ first second, left ≠ binary op first second)
    (right : Expr) : chain op left right = binary op left right := by
  cases left with
  | binary other first second =>
    refine if_neg fun hop => ?_
    rw [hop] at h
    exact h first second rfl
  | column _ _ | string _ | isIn _ _ _ | paren _ => rfl

/-- Either the expression is a chain of the operator, or it is none. -/
theorem chain_cases (op : BinaryOp) (e : Expr) :
    (∃ first second, e = binary op first second) ∨ ∀ first second, e ≠ binary op first second := by
  by_cases h : ∃ first second, e = binary op first second
  · exact .inl h
  · exact .inr fun first second he => h ⟨first, second, he⟩

theorem link_eq_chain {op : BinaryOp} (h : op.isAssociative = true) (left right : Expr) :
    link op left right = chain op left right :=
  if_pos h

theorem link_eq_of_not {op : BinaryOp} (h : op.isAssociative = false) (left right : Expr) :
    link op left right = binary op left right :=
  if_neg (by rw [h]; decide)

theorem link_eq_binary (op : BinaryOp) (left right : Expr) :
    ∃ first second, link op left right = binary op first second := by
  cases hop : op.isAssociative with
  | true =>
    rw [link_eq_chain hop]
    rcases chain_cases op left with ⟨first, second, rfl⟩ | h
    · exact ⟨_, _, chain_same op first second right⟩
    · exact ⟨_, _, chain_of_ne h right⟩
  | false => exact ⟨_, _, link_eq_of_not hop left right⟩

theorem link_ne_isIn (op : BinaryOp) (left right subject : Expr) (members : List Expr)
    (negated : Bool) : link op left right ≠ isIn subject members negated := by
  obtain ⟨_, _, h⟩ := link_eq_binary op left right
  rw [h]
  exact Expr.noConfusion

/-- Chains of one operator do not depend on how they are built. -/
theorem chain_assoc (op : BinaryOp) (e f g : Expr) :
    chain op (chain op e f) g = chain op e (chain op f g) := by
  rcases chain_cases op e with ⟨first, second, rfl⟩ | h
  · rw [chain_same, chain_same, chain_same, chain_assoc op second f g]
  · rw [chain_of_ne h, chain_of_ne h, chain_same]

theorem link_assoc {op : BinaryOp} (h : op.isAssociative = true) (e f g : Expr) :
    link op (link op e f) g = link op e (link op f g) := by
  simp only [link_eq_chain h]
  exact chain_assoc op e f g

/-- Expressions that are alike have one plain form. -/
theorem Alike.plain_eq {e f : Expr} (h : e.Alike f) : plain e = plain f := by
  induction h with
  | refl e => rfl
  | symm _ ih => exact ih.symm
  | trans _ _ ih ih' => exact ih.trans ih'
  | paren inner => exact plain_paren inner
  | assoc h e f g =>
    simp only [plain_binary]
    exact link_assoc h _ _ _
  | binary op _ _ hleft hright => rw [plain_binary, plain_binary, hleft, hright]
  | subject members negated _ ih => rw [plain_isIn, plain_isIn, ih]
  | member subject before after negated _ ih =>
    simp only [plain_isIn, List.map_append, List.map_cons, ih]

/-- Hanging a chain to the right leaves it alike. -/
theorem alike_chain {op : BinaryOp} (h : op.isAssociative = true) (left right : Expr) :
    (chain op left right).Alike (binary op left right) := by
  rcases chain_cases op left with ⟨first, second, rfl⟩ | hne
  · rw [chain_same]
    exact .trans (.binary op (.refl first) (alike_chain h second right)) (.symm (.assoc h ..))
  · rw [chain_of_ne hne]
    exact .refl _

/-- Linking two expressions is like operating on them. -/
theorem alike_link (op : BinaryOp) (left right : Expr) :
    (link op left right).Alike (binary op left right) := by
  unfold link
  split
  next h => exact alike_chain h left right
  next => exact .refl _

mutual
/-- The plain form of an expression is like the expression. -/
theorem alike_plain : (e : Expr) → (plain e).Alike e
  | column _ _ | string _ => .refl _
  | binary op left right => by
    rw [plain]
    exact .trans (alike_link op _ _) (.binary op (alike_plain left) (alike_plain right))
  | isIn subject members negated => by
    rw [plain]
    exact .trans (.subject _ negated (alike_plain subject))
      (alike_plainAll subject negated members [])
  | paren inner => by
    rw [plain]
    exact .trans (alike_plain inner) (.symm (.paren inner))

/-- The members of a list are replaced one by one. -/
theorem alike_plainAll (subject : Expr) (negated : Bool) : (es before : List Expr) →
    (isIn subject (before ++ plainAll es) negated).Alike (isIn subject (before ++ es) negated)
  | [], before => .refl _
  | e :: rest, before => by
    have hrest := alike_plainAll subject negated rest (before ++ [e])
    simp only [List.append_assoc, List.singleton_append] at hrest
    rw [plainAll]
    exact .trans (.member subject before (plainAll rest) negated (alike_plain e)) hrest
end

/-- Two expressions are alike if their plain forms are equal, and only then. -/
theorem alike_iff {e f : Expr} : e.Alike f ↔ plain e = plain f := by
  refine ⟨Alike.plain_eq, fun h => ?_⟩
  have he := alike_plain e
  rw [h] at he
  exact .trans (.symm he) (alike_plain f)

/-! ## Widths -/

/-- How many operands stand side by side in an expression, where a list is not counted. -/
def width : Expr → Nat
  | binary _ left right => width left + width right
  | isIn subject _ _ => width subject
  | paren inner => width inner
  | _ => 1

theorem width_pos : (e : Expr) → 0 < e.width
  | binary _ left _ => Nat.add_pos_left (width_pos left) _
  | isIn subject _ _ => width_pos subject
  | paren inner => width_pos inner
  | column _ _ | string _ => Nat.one_pos

theorem width_chain (op : BinaryOp) (left right : Expr) :
    (chain op left right).width = left.width + right.width := by
  rcases chain_cases op left with ⟨first, second, rfl⟩ | h
  · rw [chain_same, width, width_chain op second right, width, Nat.add_assoc]
  · rw [chain_of_ne h, width]

theorem width_link (op : BinaryOp) (left right : Expr) :
    (link op left right).width = left.width + right.width := by
  unfold link
  split
  next => exact width_chain op left right
  next => rfl

/-- The plain form is as wide as the expression. -/
theorem width_plain : (e : Expr) → (plain e).width = e.width
  | binary op left right => by
    rw [plain, width_link, width_plain left, width_plain right, width]
  | isIn subject _ _ => by rw [plain, width, width_plain subject, width]
  | paren inner => by rw [plain, width_plain inner, width]
  | column _ _ | string _ => rfl

/-- A chain that is cut in two ways is cut at one place, or at two with something between them. -/
theorem chain_cut {op : BinaryOp} (left : Expr) {right left' right' : Expr}
    (h : chain op left right = chain op left' right') (hle : left'.width ≤ left.width) :
    (left = left' ∧ right = right') ∨ ∃ middle, left = chain op left' middle := by
  rcases chain_cases op left with ⟨first, second, rfl⟩ | hleft <;>
    rcases chain_cases op left' with ⟨first', second', rfl⟩ | hleft'
  · rw [chain_same, chain_same] at h
    injection h with _ hfirst hrest
    subst hfirst
    rcases chain_cut second hrest (Nat.le_of_add_le_add_left hle) with ⟨rfl, hright⟩ | ⟨m, rfl⟩
    · exact .inl ⟨rfl, hright⟩
    · exact .inr ⟨m, (chain_same op first second' m).symm⟩
  · rw [chain_same, chain_of_ne hleft'] at h
    injection h with _ hfirst _
    exact .inr ⟨second, by rw [hfirst, chain_of_ne hleft']⟩
  · rw [chain_of_ne hleft, chain_same] at h
    injection h with _ hfirst _
    have := second'.width_pos
    rw [hfirst, width] at hle
    omega
  · rw [chain_of_ne hleft, chain_of_ne hleft'] at h
    injection h with _ hfirst hright
    exact .inl ⟨hfirst, hright⟩

/-- The operands of an operation are known from its plain form, if it is known how wide the left
one is. -/
theorem link_inj {op : BinaryOp} {left right left' right' : Expr}
    (h : link op left right = link op left' right') (hwidth : left.width = left'.width) :
    left = left' ∧ right = right' := by
  cases hop : op.isAssociative with
  | true =>
    rw [link_eq_chain hop, link_eq_chain hop] at h
    rcases chain_cut left h (Nat.le_of_eq hwidth.symm) with hsame | ⟨middle, rfl⟩
    · exact hsame
    · have := middle.width_pos
      rw [width_chain] at hwidth
      omega
  | false =>
    rw [link_eq_of_not hop, link_eq_of_not hop] at h
    injection h with _ hleft hright
    exact ⟨hleft, hright⟩

/-- A left operand that is wider is a chain that begins with the other one. -/
theorem link_cut {op : BinaryOp} {left right left' right' : Expr}
    (h : link op left right = link op left' right') (hlt : left'.width < left.width) :
    op.isAssociative = true ∧ ∃ middle, left = link op left' middle := by
  cases hop : op.isAssociative with
  | true =>
    rw [link_eq_chain hop, link_eq_chain hop] at h
    rcases chain_cut left h (Nat.le_of_lt hlt) with ⟨rfl, _⟩ | ⟨middle, hmiddle⟩
    · exact absurd hlt (Nat.lt_irrefl _)
    · exact ⟨rfl, middle, hmiddle.trans (link_eq_chain hop _ _).symm⟩
  | false =>
    rw [link_eq_of_not hop, link_eq_of_not hop] at h
    injection h with _ hleft _
    rw [hleft] at hlt
    exact absurd hlt (Nat.lt_irrefl _)

theorem link_op {op op' : BinaryOp} {left right left' right' : Expr}
    (h : link op left right = link op' left' right') : op = op' := by
  obtain ⟨_, _, he⟩ := link_eq_binary op left right
  obtain ⟨_, _, he'⟩ := link_eq_binary op' left' right'
  rw [he, he'] at h
  injection h

end Expr

end Joinery
