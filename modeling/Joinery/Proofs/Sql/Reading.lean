import Joinery.Proofs.Sql.Lexing
import Joinery.Sql.Expr

/-!
# Reading expressions

The second stage of reading a statement goes from lexemes to what they mean. An expression is
read from the left by a machine that takes one lexeme at a time (`ExprReader.step`). Operators
wait with their left operand until it is known how far their right operand reaches: it ends in
front of the next operator that binds no tighter, and at the end of the parentheses around it.
How tight an operator binds is `BinaryOp.strength`: concatenation before comparison, comparison
before conjunction, and operators of one strength from the left.

An expression is written without parentheses of its own, so it is only read back if those that
it needs are part of it: every operand has to bind tightly enough for its place. What counts is
the end at which the operator stands, since that is where the operator could take a part of the
operand only: the right end of a left operand (`rightStrength`) and the left end of a right one
(`leftStrength`). `Placed` says so of a whole expression, and `Grouped`, which asks for more, of
expressions as they are compiled. `readAs_of_legible` is the step of the argument, for an
expression in front of anything and after any operators that bind less: what is read of it amounts
to it. `read_lexemes` is the theorem for a whole expression.

The expressions have been written by `Expr.tokens`.
-/

namespace Joinery

/-! ## Spelling -/

namespace Tokens

/-- The tokens keep apart from each other, and from anything that stands before them. -/
def Follows (ts : Tokens) : Prop :=
  WellSpelled ts ∧ BreakNext ts

theorem Follows.nil : Follows [] :=
  ⟨trivial, fun t ht => absurd ht (by simp)⟩

/-- After a break anything well-spelled goes on. -/
theorem WellSpelled.break {t : Token} (ht : t.isBreak = true) {rest : Tokens}
    (h : WellSpelled rest) : WellSpelled (t :: rest) := by
  refine ⟨?_, .inl ?_, h⟩
  · cases t <;> simp_all [Token.isBreak, Token.isRegular]
  · cases t <;> simp_all [Token.isBreak, Token.isClosed]

/-- A token that breaks keeps apart from what is before it and from what comes after it. -/
theorem Follows.cons {t : Token} (ht : t.isBreak = true) {rest : Tokens} (h : WellSpelled rest) :
    Follows (t :: rest) := by
  refine ⟨.break ht h, ?_⟩
  intro u hu
  rw [← Option.some.inj hu]
  exact ht

/-- A regular token may start what is to be continued. -/
theorem WellSpelled.cons {t : Token} (ht : t.isRegular = true) {rest : Tokens}
    (h : Follows rest) : WellSpelled (t :: rest) :=
  ⟨ht, .inr h.2, h.1⟩

/-- A space before a regular token is a break. -/
theorem Follows.space {t : Token} (ht : t.isRegular = true) {rest : Tokens} (h : Follows rest) :
    Follows (.space :: t :: rest) :=
  .cons rfl (.cons ht h)

end Tokens

namespace Expr

open Tokens

/-- The name of the function is written in capitals. -/
theorem upper_call : Text.upper "CONCAT".toList = "CONCAT".toList :=
  Text.upper_of_forall_lt (by simp)

/-- The name of the function is spelled like a word. -/
theorem isRegular_call : (Token.function "CONCAT").isRegular = true := by
  rw [Token.isRegular, upper_call]
  rfl

mutual
/-- The tokens of an expression keep apart, in front of anything that does. -/
theorem wellSpelled_append (d : Dialect) {rest : Tokens} (h : Follows rest) :
    (e : Expr) → WellSpelled (e.tokens d ++ rest)
  | column none name => .cons rfl h
  | column (some table) name => .cons rfl (.cons rfl (.cons rfl h))
  | string value => .cons rfl h
  | binary op left right => by
    rw [tokens]
    split
    next =>
      have hright : WellSpelled (right.tokens d ++ .closeParen :: rest) :=
        wellSpelled_append d (.cons rfl h.1) right
      have hleft : WellSpelled
          (left.tokens d ++ .comma :: .space :: (right.tokens d ++ .closeParen :: rest)) :=
        wellSpelled_append d (.cons rfl (.break rfl hright)) left
      simp only [List.append_assoc, List.cons_append, List.nil_append]
      exact .cons isRegular_call (.cons rfl hleft)
    next =>
      have hop : op.token.isRegular = true := by cases op <;> rfl
      have hright := wellSpelled_append d h right
      simp only [List.append_assoc, List.cons_append, List.nil_append]
      exact wellSpelled_append d (.space hop (.cons rfl hright)) left
  | isIn _ [] negated => by
    have hone : (Token.integer 1).isRegular = true := by decide +kernel
    have hop : (if negated then Token.equal else .notEqual).isRegular = true := by
      cases negated <;> rfl
    exact .cons hone (.space hop (.space hone h))
  | isIn subject (first :: others) negated => by
    have hothers : Follows (tokensAfterComma d others ++ .closeParen :: rest) :=
      follows_afterComma d (.cons rfl h.1) others
    have hfirst := wellSpelled_append d hothers first
    have hlist : Follows (.space :: .keyword .IN :: .space :: .openParen :: _) :=
      .space rfl (.cons rfl (.break rfl hfirst))
    rw [tokens]
    simp only [List.append_assoc, List.cons_append, List.nil_append]
    refine wellSpelled_append d ?_ subject
    cases negated with
    | true => exact .space rfl hlist
    | false => exact hlist
  | paren inner => by
    have hinner : WellSpelled (inner.tokens d ++ .closeParen :: rest) :=
      wellSpelled_append d (.cons rfl h.1) inner
    simp only [tokens, List.append_assoc, List.cons_append, List.nil_append]
    exact .break rfl hinner

/-- Members of a list follow one another after commas. -/
theorem follows_afterComma (d : Dialect) {rest : Tokens} (h : Follows rest) :
    (es : List Expr) → Follows (tokensAfterComma d es ++ rest)
  | [] => h
  | e :: es => by
    have he := wellSpelled_append d (follows_afterComma d h es) e
    rw [tokensAfterComma, List.append_assoc, List.append_assoc]
    exact .cons rfl (.break rfl he)
end

end Expr

/-! ## Operators -/

/-- How tightly an operator binds. -/
def BinaryOp.strength : BinaryOp → Nat
  | and => 1
  | eq | ne | like => 2
  | concat => 3

/-- How tightly the right operand of an operator has to bind, where it can be held together by
operators of the same strength only if the operator is one of the `chains`. -/
def BinaryOp.least (chains : BinaryOp → Bool) (op : BinaryOp) : Nat :=
  if chains op then op.strength else op.strength + 1

/-- The least strength for a right operand is not below that of the operator. -/
theorem BinaryOp.strength_le_least (chains : BinaryOp → Bool) (op : BinaryOp) :
    op.strength ≤ op.least chains := by
  unfold least
  split
  next => exact Nat.le_refl _
  next => exact Nat.le_succ _

/-- The least strength for a right operand is at most one above that of the operator. -/
theorem BinaryOp.least_le (chains : BinaryOp → Bool) (op : BinaryOp) :
    op.least chains ≤ op.strength + 1 := by
  unfold least
  split
  next => exact Nat.le_succ _
  next => exact Nat.le_refl _

namespace Lexeme

/-- The identifier that a lexeme is, where the grammar calls for one: words that are keywords
elsewhere are none there. -/
def identifier? : Lexeme → Option String
  | word text | name text => some (String.ofList text)
  | literal _ _ | mark _ => none

/-- The operator that a lexeme is between two operands. -/
def operator? (d : Dialect) : Lexeme → Option BinaryOp
  | mark .equal => some .eq
  | mark .notEqual => some .ne
  | mark .concat => if d.hasConcatOperator then some .concat else none
  | word text =>
    if text = Keyword.AND.text.toList then some .and
    else if text = Keyword.LIKE.text.toList then some .like
    else none
  | _ => none

def ofKeyword (k : Keyword) : Lexeme :=
  word k.text.toList

/-- What a concatenation is called by where it is a call. -/
def concatCall : Lexeme :=
  word "CONCAT".toList

/-- Whether an expression goes on with the lexeme, outside of parentheses. -/
def goesOn (d : Dialect) (l : Lexeme) : Bool :=
  (l.operator? d).isSome || [ofKeyword .NOT, ofKeyword .IN, mark .dot].contains l

end Lexeme

theorem Token.lexemes_concatCall (d : Dialect) :
    (Token.function "CONCAT").lexemes d = [.concatCall] := by
  rw [Token.lexemes, Expr.upper_call, Lexeme.concatCall]

/-- The token of an operator is read as that operator. -/
theorem BinaryOp.operator?_token {d : Dialect} {op : BinaryOp}
    (h : op ≠ .concat ∨ d.hasConcatOperator = true) :
    ∃ l, op.token.lexemes d = [l] ∧ l.operator? d = some op := by
  cases op with
  | eq => exact ⟨_, rfl, rfl⟩
  | ne => exact ⟨_, rfl, rfl⟩
  | and => exact ⟨_, rfl, rfl⟩
  | like => exact ⟨_, rfl, by simp [Lexeme.operator?, Keyword.text]⟩
  | concat =>
    refine ⟨_, rfl, ?_⟩
    rw [Lexeme.operator?, if_pos (h.resolve_left (by simp))]

/-! ## The machine -/

/-- An operator with its left operand, while its right operand is read. -/
structure Waiting where
  left : Expr
  op : BinaryOp

/-- What a parenthesis was opened for. -/
inductive Opened
  | group
  -- the members of a list, with those already read
  | members (subject : Expr) (negated : Bool) (before : List Expr)
  -- the operands of a call, with the first when it is already read
  | call (first : Option Expr)

/-- An open parenthesis, and the operators that wait outside of it. -/
structure Frame where
  opened : Opened
  waiting : List Waiting

/-- What comes next. -/
inductive Expecting
  | operand
  -- the parenthesis of a call
  | call
  -- the column, after the table and the dot
  | column (table : String)
  -- an operator after an operand, or the end
  | operator (operand : Expr)
  -- the keyword of a membership, after its negation
  | membership (subject : Expr)
  -- the list of a membership
  | list (subject : Expr) (negated : Bool)

/-- A reader of expressions: what it expects, which operators wait for a right operand, and what it
is within. -/
structure ExprReader where
  expecting : Expecting
  waiting : List Waiting
  frames : List Frame

namespace ExprReader

/-- The reader at the start of an expression. -/
def start : ExprReader :=
  ⟨.operand, [], []⟩

/-- What an operand amounts to in front of an operator of some strength: it is the right operand
of those that wait and bind at least as tightly. The others go on waiting. -/
def complete (strength : Nat) (operand : Expr) : List Waiting → Expr × List Waiting
  | [] => (operand, [])
  | w :: ws =>
    if strength ≤ w.op.strength then complete strength (.binary w.op w.left operand) ws
    else (operand, w :: ws)

/-- What is read between the innermost parentheses, at their end. -/
def amount (s : ExprReader) (operand : Expr) : Expr :=
  (complete 0 operand s.waiting).1

/-- A dot after an operand, which then was the table of a column. -/
def dot? (s : ExprReader) : Expr → Option ExprReader
  | .column none table => some { s with expecting := .column table }
  | _ => none

/-- A comma after an operand. -/
def comma? (s : ExprReader) (operand : Expr) : Option ExprReader :=
  match s.frames with
  | ⟨.members subject negated before, ws⟩ :: fs =>
    some ⟨.operand, [], ⟨.members subject negated (before ++ [s.amount operand]), ws⟩ :: fs⟩
  | ⟨.call none, ws⟩ :: fs => some ⟨.operand, [], ⟨.call (some (s.amount operand)), ws⟩ :: fs⟩
  | _ => none

/-- A closing parenthesis after an operand. -/
def close? (s : ExprReader) (operand : Expr) : Option ExprReader :=
  match s.frames with
  | ⟨.group, ws⟩ :: fs => some ⟨.operator (.paren (s.amount operand)), ws, fs⟩
  | ⟨.members subject negated before, ws⟩ :: fs =>
    some ⟨.operator (.isIn subject (before ++ [s.amount operand]) negated), ws, fs⟩
  | ⟨.call (some first), ws⟩ :: fs =>
    some ⟨.operator (.binary .concat first (s.amount operand)), ws, fs⟩
  | _ => none

/-- A lexeme where an operand is due. -/
def operandStep (d : Dialect) (s : ExprReader) : Lexeme → Option ExprReader
  | .mark .openParen => some ⟨.operand, [], ⟨.group, s.waiting⟩ :: s.frames⟩
  | .literal _ text => some { s with expecting := .operator (.string (String.ofList text)) }
  | l =>
    if d.hasConcatOperator = false ∧ l = .concatCall then some { s with expecting := .call }
    else l.identifier?.map fun name => { s with expecting := .operator (.column none name) }

/-- A lexeme after an operand. -/
def operatorStep (d : Dialect) (s : ExprReader) (operand : Expr) (l : Lexeme) :
    Option ExprReader :=
  match l.operator? d with
  | some op =>
    let (left, ws) := complete op.strength operand s.waiting
    some { s with expecting := .operand, waiting := ⟨left, op⟩ :: ws }
  | none =>
    if l = .ofKeyword .NOT then
      let (subject, ws) := complete 2 operand s.waiting
      some { s with expecting := .membership subject, waiting := ws }
    else if l = .ofKeyword .IN then
      let (subject, ws) := complete 2 operand s.waiting
      some { s with expecting := .list subject false, waiting := ws }
    else
      match l with
      | .mark .dot => s.dot? operand
      | .mark .comma => s.comma? operand
      | .mark .closeParen => s.close? operand
      | _ => none

/-- Takes one lexeme more, if the expression goes on with it. -/
def step (d : Dialect) (s : ExprReader) (l : Lexeme) : Option ExprReader :=
  match s.expecting with
  | .operand => operandStep d s l
  | .call =>
    if l = .mark .openParen then some ⟨.operand, [], ⟨.call none, s.waiting⟩ :: s.frames⟩
    else none
  | .column table =>
    l.identifier?.map fun name => { s with expecting := .operator (.column (some table) name) }
  | .operator operand => operatorStep d s operand l
  | .membership subject =>
    if l = .ofKeyword .IN then some { s with expecting := .list subject true } else none
  | .list subject negated =>
    if l = .mark .openParen then
      some ⟨.operand, [], ⟨.members subject negated [], s.waiting⟩ :: s.frames⟩
    else none

/-- What is read, if that can be all of it. -/
def finished? (s : ExprReader) : Option Expr :=
  match s.expecting, s.frames with
  | .operator operand, [] => some (s.amount operand)
  | _, _ => none

/-- Reads as far as an expression goes, and returns the lexemes after it. -/
def run (d : Dialect) (s : ExprReader) : List Lexeme → Option (Expr × List Lexeme)
  | [] => s.finished?.map (·, [])
  | l :: rest =>
    match s.step d l with
    | some next => next.run d rest
    | none => s.finished?.map (·, l :: rest)

/-- An expression, as far as it goes, and the lexemes after it. -/
def read (d : Dialect) (lexemes : List Lexeme) : Option (Expr × List Lexeme) :=
  start.run d lexemes

variable {d : Dialect}

/-- Reading goes on after a step that can be made. -/
theorem run_cons {s next : ExprReader} {l : Lexeme} (h : s.step d l = some next)
    (rest : List Lexeme) : s.run d (l :: rest) = next.run d rest := by
  rw [run, h]

/-- An operator that binds as tightly takes its right operand. -/
theorem complete_cons_of_le {strength : Nat} {w : Waiting} (h : strength ≤ w.op.strength)
    (operand : Expr) (ws : List Waiting) :
    complete strength operand (w :: ws) = complete strength (.binary w.op w.left operand) ws := by
  rw [complete, if_pos h]

/-- Operators that bind less go on waiting. -/
theorem complete_eq {strength : Nat} {ws : List Waiting}
    (h : ∀ w ∈ ws.head?, w.op.strength < strength) (operand : Expr) :
    complete strength operand ws = (operand, ws) := by
  cases ws with
  | nil => rfl
  | cons w ws => rw [complete, if_neg (Nat.not_le.mpr (h w rfl))]

end ExprReader

/-! ## Expressions that can be read back -/

theorem Dialect.identifier?_identifierLexeme (d : Dialect) (name : String) :
    (d.identifierLexeme name.toList).identifier? = some name := by
  unfold Dialect.identifierLexeme
  split <;> exact congrArg some (String.ofList_toList)

namespace Expr

/-- How tightly an expression holds together: as its operator does, or altogether. -/
def strength (d : Dialect) : Expr → Nat
  | binary op _ _ => if op = .concat ∧ ¬ d.hasConcatOperator then 4 else op.strength
  | isIn _ _ _ => 2
  | _ => 4

/-- Every operand binds tightly enough for its place, and no list is empty. -/
inductive Grouped (d : Dialect) : Expr → Prop
  | column (table : Option String) (name : String) : Grouped d (column table name)
  | string (value : String) : Grouped d (string value)
  | call {left right : Expr} (h : d.hasConcatOperator = false) :
    Grouped d left → Grouped d right → Grouped d (binary .concat left right)
  | operation {op : BinaryOp} {left right : Expr} (h : op ≠ .concat ∨ d.hasConcatOperator = true) :
    Grouped d left → op.strength ≤ left.strength d →
    Grouped d right → op.strength < right.strength d → Grouped d (binary op left right)
  | isIn {subject first : Expr} {others : List Expr} (negated : Bool) :
    Grouped d subject → 2 ≤ subject.strength d →
    (∀ m ∈ first :: others, Grouped d m) → Grouped d (isIn subject (first :: others) negated)
  | paren {inner : Expr} : Grouped d inner → Grouped d (paren inner)

/-- How tightly an expression holds together at its left end: as the loosest operator does that its
first operand belongs to outside of parentheses. -/
def leftStrength (d : Dialect) : Expr → Nat
  | binary op left _ =>
    if op = .concat ∧ ¬ d.hasConcatOperator then 4 else min op.strength (leftStrength d left)
  | isIn subject _ _ => min 2 (leftStrength d subject)
  | _ => 4

/-- How tightly an expression holds together at its right end. A list ends a membership. -/
def rightStrength (d : Dialect) : Expr → Nat
  | binary op _ right =>
    if op = .concat ∧ ¬ d.hasConcatOperator then 4 else min op.strength (rightStrength d right)
  | _ => 4

/-- Every left operand binds as tightly as its operator, every right operand more tightly, unless
the operator is one of the `chains`, and no list is empty. -/
inductive Placed (d : Dialect) (chains : BinaryOp → Bool) : Expr → Prop
  | column (table : Option String) (name : String) : Placed d chains (column table name)
  | string (value : String) : Placed d chains (string value)
  | call {left right : Expr} (h : d.hasConcatOperator = false) :
    Placed d chains left → Placed d chains right → Placed d chains (binary .concat left right)
  | operation {op : BinaryOp} {left right : Expr} (h : op ≠ .concat ∨ d.hasConcatOperator = true) :
    Placed d chains left → op.strength ≤ left.rightStrength d →
    Placed d chains right → op.least chains ≤ right.leftStrength d →
    Placed d chains (binary op left right)
  | isIn {subject first : Expr} {others : List Expr} (negated : Bool) :
    Placed d chains subject → 2 ≤ subject.rightStrength d →
    (∀ m ∈ first :: others, Placed d chains m) →
    Placed d chains (isIn subject (first :: others) negated)
  | paren {inner : Expr} : Placed d chains inner → Placed d chains (paren inner)

/-- The expression is what its text is read as. Operators of one strength are read from the left,
so there are no chains to the right. -/
abbrev Legible (d : Dialect) : Expr → Prop :=
  Placed d fun _ => false

def lexemes (d : Dialect) (e : Expr) : List Lexeme :=
  Tokens.lexemes d (e.tokens d)

variable {d : Dialect}

/-- An operation is as strong as its operator. -/
theorem strength_operation {op : BinaryOp} (h : op ≠ .concat ∨ d.hasConcatOperator = true)
    (left right : Expr) : (binary op left right).strength d = op.strength :=
  if_neg fun hcall => hcall.2 (h.resolve_left (· hcall.1))

/-- To its left an operation is as strong as the weaker of operator and first operand. -/
theorem leftStrength_operation {op : BinaryOp} (h : op ≠ .concat ∨ d.hasConcatOperator = true)
    (left right : Expr) :
    (binary op left right).leftStrength d = min op.strength (left.leftStrength d) :=
  if_neg fun hcall => hcall.2 (h.resolve_left (· hcall.1))

/-- To its right an operation is as strong as the weaker of operator and second operand. -/
theorem rightStrength_operation {op : BinaryOp} (h : op ≠ .concat ∨ d.hasConcatOperator = true)
    (left right : Expr) :
    (binary op left right).rightStrength d = min op.strength (right.rightStrength d) :=
  if_neg fun hcall => hcall.2 (h.resolve_left (· hcall.1))

/-- Nothing can be taken from a call on its left. -/
theorem leftStrength_call (h : d.hasConcatOperator = false) (left right : Expr) :
    (binary .concat left right).leftStrength d = 4 :=
  if_pos ⟨rfl, by rw [h]; decide⟩

theorem rightStrength_call (h : d.hasConcatOperator = false) (left right : Expr) :
    (binary .concat left right).rightStrength d = 4 :=
  if_pos ⟨rfl, by rw [h]; decide⟩

/-- What groups its operands is what it is read as. It holds together at both ends as tightly as it
does altogether. -/
theorem Grouped.legible {e : Expr} (h : e.Grouped d) :
    e.Legible d ∧ e.leftStrength d = e.strength d ∧ e.strength d ≤ e.rightStrength d := by
  induction h with
  | column table name => exact ⟨.column table name, rfl, Nat.le_refl _⟩
  | string value => exact ⟨.string value, rfl, Nat.le_refl _⟩
  | call hd _ _ hleft hright =>
    have hstrength (left right : Expr) : (binary .concat left right).strength d = 4 :=
      if_pos ⟨rfl, by rw [hd]; decide⟩
    exact ⟨.call hd hleft.1 hright.1, (leftStrength_call hd _ _).trans (hstrength _ _).symm,
      Nat.le_of_eq ((hstrength _ _).trans (rightStrength_call hd _ _).symm)⟩
  | operation hd _ hl _ hr hleft hright =>
    have hle := Nat.le_trans hl hleft.2.2
    have hlt := Nat.lt_of_lt_of_le hr (Nat.le_of_eq hright.2.1.symm)
    refine ⟨.operation hd hleft.1 hle hright.1 hlt, ?_, ?_⟩
    · rw [leftStrength_operation hd, strength_operation hd, hleft.2.1, Nat.min_eq_left hl]
    · rw [rightStrength_operation hd, strength_operation hd]
      exact Nat.le_min.mpr ⟨Nat.le_refl _, Nat.le_trans (Nat.le_of_lt hr) hright.2.2⟩
  | isIn negated _ hs _ hsubject hmembers =>
    refine ⟨.isIn negated hsubject.1 (Nat.le_trans hs hsubject.2.2) fun m hm =>
      (hmembers m hm).1, ?_, ?_⟩
    · rw [leftStrength, hsubject.2.1, Nat.min_eq_left hs]
      rfl
    · show 2 ≤ 4
      decide
  | paren _ hinner => exact ⟨.paren hinner.1, rfl, Nat.le_refl _⟩

/-- A concatenation binds tighter than a comparison. -/
theorem strength_concat (left right : Expr) : 3 ≤ (binary .concat left right).strength d := by
  cases hd : d.hasConcatOperator with
  | true =>
    rw [strength_operation (.inr hd)]
    exact Nat.le_refl 3
  | false =>
    rw [strength, if_pos ⟨rfl, by rw [hd]; decide⟩]
    decide

/-- A chain of concatenations groups its operands in every dialect. -/
theorem Grouped.concat {left right : Expr} (hleft : left.Grouped d) (hl : 3 ≤ left.strength d)
    (hright : right.Grouped d) (hr : 3 < right.strength d) :
    (binary .concat left right).Grouped d := by
  cases hd : d.hasConcatOperator with
  | true => exact .operation (.inr hd) hleft hl hright hr
  | false => exact .call hd hleft hright

/-- What stands between the subject of a membership and its list. -/
def membershipLexemes (negated : Bool) : List Lexeme :=
  if negated then [.ofKeyword .NOT, .ofKeyword .IN] else [.ofKeyword .IN]

/-- What stands after the subject of a membership. -/
def listLexemes (d : Dialect) (negated : Bool) (first : Expr) (others : List Expr) : List Lexeme :=
  membershipLexemes negated ++ .mark .openParen :: (first.lexemes d ++
    (Tokens.lexemes d (tokensAfterComma d others) ++ [.mark .closeParen]))

/-- The lexemes of a membership: its subject and the list. -/
theorem lexemes_isIn (subject first : Expr) (others : List Expr) (negated : Bool) :
    (isIn subject (first :: others) negated).lexemes d =
      subject.lexemes d ++ listLexemes d negated first others := by
  cases negated <;>
    simp [lexemes, tokens, Tokens.lexemes, Token.lexemes, Lexeme.ofKeyword, listLexemes,
      membershipLexemes]

/-- Parentheses around an expression are around its lexemes. -/
theorem lexemes_paren (inner : Expr) :
    (paren inner).lexemes d = .mark .openParen :: (inner.lexemes d ++ [.mark .closeParen]) := by
  simp [lexemes, tokens, Tokens.lexemes, Token.lexemes]

/-- The lexemes of a call: both operands in parentheses. -/
theorem lexemes_call (h : d.hasConcatOperator = false) (left right : Expr) :
    (binary .concat left right).lexemes d =
      .concatCall :: .mark .openParen :: (left.lexemes d ++
        .mark .comma :: (right.lexemes d ++ [Lexeme.mark .closeParen])) := by
  rw [lexemes, tokens, if_pos ⟨rfl, by rw [h]; decide⟩]
  simp only [Tokens.lexemes_append, Tokens.lexemes_cons, List.cons_append, List.nil_append,
    List.append_assoc, Token.lexemes_concatCall]
  rfl

/-- The lexemes of an operation: its operator between both operands. -/
theorem lexemes_operation {op : BinaryOp} (h : op ≠ .concat ∨ d.hasConcatOperator = true)
    (left right : Expr) :
    (binary op left right).lexemes d =
      left.lexemes d ++ (op.token.lexemes d ++ right.lexemes d) := by
  rw [lexemes, tokens, if_neg fun hcall => hcall.2 (h.resolve_left (· hcall.1))]
  simp only [Tokens.lexemes_append, Tokens.lexemes_cons, List.append_assoc]
  rfl

end Expr

namespace ExprReader

open Joinery.Expr

variable {d : Dialect}

/-- A name where an operand is expected is a column. -/
theorem run_identifier (name : String) (ws : List Waiting) (fs : List Frame) (rest : List Lexeme) :
    run d ⟨.operand, ws, fs⟩ (d.identifierLexeme name.toList :: rest) =
      run d ⟨.operator (.column none name), ws, fs⟩ rest := by
  apply run_cons
  have hname := d.identifier?_identifierLexeme name
  unfold Dialect.identifierLexeme at hname ⊢
  split at hname
  next hplain =>
    rw [if_pos hplain]
    show (if d.hasConcatOperator = false ∧ _ then _ else _) = _
    rw [if_neg (by rw [hplain.1]; simp [Dialect.hasConcatOperator]), hname]
    rfl
  next hquoted =>
    rw [if_neg hquoted]
    show (if _ ∧ Lexeme.name name.toList = .concatCall then _ else _) = _
    rw [if_neg (by simp [Lexeme.concatCall]), hname]
    rfl

/-- Where an operand is due, in front of anything, the expression is read: what it leaves behind
amounts to the expression wherever that is an operand of what follows. -/
def ReadAs (d : Dialect) (e : Expr) : Prop :=
  ∀ ws fs rest, (∀ w ∈ ws.head?, w.op.strength < e.leftStrength d) →
    ∃ operand waiting,
      run d ⟨.operand, ws, fs⟩ (e.lexemes d ++ rest) =
        run d ⟨.operator operand, waiting, fs⟩ rest ∧
      ∀ s, s ≤ e.rightStrength d → complete s operand waiting = complete s e ws

/-- Between parentheses nothing waits. -/
theorem ReadAs.amount {e : Expr} (h : ReadAs d e) (fs : List Frame) (rest : List Lexeme) :
    ∃ operand waiting,
      run d ⟨.operand, [], fs⟩ (e.lexemes d ++ rest) =
        run d ⟨.operator operand, waiting, fs⟩ rest ∧
      (complete 0 operand waiting).1 = e := by
  obtain ⟨operand, waiting, hrun, hamount⟩ := h [] fs rest (fun w hw => absurd hw (by simp))
  exact ⟨operand, waiting, hrun, by rw [hamount 0 (Nat.zero_le _)]; rfl⟩

theorem readAs_column (table : Option String) (name : String) : ReadAs d (.column table name) := by
  intro ws fs rest _
  refine ⟨.column table name, ws, ?_, fun _ _ => rfl⟩
  cases table with
  | none => exact run_identifier name ws fs rest
  | some table =>
    show run d _ (d.identifierLexeme table.toList :: .mark .dot ::
      d.identifierLexeme name.toList :: rest) = _
    have hdot : step d ⟨.operator (.column none table), ws, fs⟩ (.mark .dot) =
        some ⟨.column table, ws, fs⟩ := rfl
    have hname : step d ⟨.column table, ws, fs⟩ (d.identifierLexeme name.toList) =
        some ⟨.operator (.column (some table) name), ws, fs⟩ := by
      show Option.map _ (d.identifierLexeme name.toList).identifier? = _
      rw [d.identifier?_identifierLexeme]
      rfl
    rw [run_identifier, run_cons hdot, run_cons hname]

theorem readAs_string (value : String) : ReadAs d (.string value) := by
  intro ws fs rest _
  refine ⟨.string value, ws, ?_, fun _ _ => rfl⟩
  show run d _ (.literal _ value.toList :: rest) = _
  have hvalue : step d ⟨.operand, ws, fs⟩ (.literal (d.isNational value.toList) value.toList) =
      some ⟨.operator (.string value), ws, fs⟩ := by
    show some (ExprReader.mk (.operator (.string (String.ofList value.toList))) ws fs) = _
    rw [String.ofList_toList]
  exact run_cons hvalue rest

/-- Parentheses are read as written if what is in them is. -/
theorem ReadAs.paren {inner : Expr} (h : ReadAs d inner) : ReadAs d (.paren inner) := by
  intro ws fs rest _
  obtain ⟨operand, waiting, hrun, hamount⟩ := h.amount (⟨.group, ws⟩ :: fs)
    (.mark .closeParen :: rest)
  refine ⟨.paren inner, ws, ?_, fun _ _ => rfl⟩
  have hopen : step d ⟨.operand, ws, fs⟩ (.mark .openParen) =
      some ⟨.operand, [], ⟨.group, ws⟩ :: fs⟩ := rfl
  have hclose : step d ⟨.operator operand, waiting, ⟨.group, ws⟩ :: fs⟩ (.mark .closeParen) =
      some ⟨.operator (.paren (complete 0 operand waiting).1), ws, fs⟩ := rfl
  rw [lexemes_paren, List.cons_append, List.append_assoc, List.singleton_append, run_cons hopen,
    hrun, run_cons hclose, hamount]

/-- A call is read as written if its arguments are. -/
theorem ReadAs.call {left right : Expr} (hd : d.hasConcatOperator = false) (hleft : ReadAs d left)
    (hright : ReadAs d right) : ReadAs d (.binary .concat left right) := by
  intro ws fs rest _
  obtain ⟨a, qs, hrunLeft, hamountLeft⟩ := hleft.amount (⟨.call none, ws⟩ :: fs)
    (.mark .comma :: (right.lexemes d ++ .mark .closeParen :: rest))
  obtain ⟨b, rs, hrunRight, hamountRight⟩ := hright.amount (⟨.call (some left), ws⟩ :: fs)
    (.mark .closeParen :: rest)
  refine ⟨.binary .concat left right, ws, ?_, fun _ _ => rfl⟩
  have hcall : step d ⟨.operand, ws, fs⟩ .concatCall = some ⟨.call, ws, fs⟩ := by
    show (if d.hasConcatOperator = false ∧ _ then _ else _) = _
    rw [if_pos ⟨hd, rfl⟩]
  have hopen : step d ⟨.call, ws, fs⟩ (.mark .openParen) =
      some ⟨.operand, [], ⟨.call none, ws⟩ :: fs⟩ := rfl
  have hcomma : step d ⟨.operator a, qs, ⟨.call none, ws⟩ :: fs⟩ (.mark .comma) =
      some ⟨.operand, [], ⟨.call (some (complete 0 a qs).1), ws⟩ :: fs⟩ := rfl
  have hclose : step d ⟨.operator b, rs, ⟨.call (some left), ws⟩ :: fs⟩ (.mark .closeParen) =
      some ⟨.operator (.binary .concat left (complete 0 b rs).1), ws, fs⟩ := rfl
  rw [lexemes_call hd]
  simp only [List.cons_append, List.append_assoc, List.nil_append]
  rw [run_cons hcall, run_cons hopen, hrunLeft, run_cons hcomma, hamountLeft, hrunRight,
    run_cons hclose, hamountRight]

/-- An operator takes what binds as tightly on its left, and waits for a right operand. -/
theorem operatorStep_of_operator? {s : ExprReader} {operand : Expr} {l : Lexeme} {op : BinaryOp}
    (h : l.operator? d = some op) :
    operatorStep d s operand l =
      some { s with
        expecting := .operand
        waiting := ⟨(complete op.strength operand s.waiting).1, op⟩ ::
          (complete op.strength operand s.waiting).2 } := by
  unfold operatorStep
  rw [h]

/-- An operation is read as written if both operands are and bind tightly enough. -/
theorem ReadAs.operation {op : BinaryOp} {left right : Expr}
    (hd : op ≠ .concat ∨ d.hasConcatOperator = true)
    (hleft : ReadAs d left) (hleftStrength : op.strength ≤ left.rightStrength d)
    (hright : ReadAs d right) (hrightStrength : op.strength < right.leftStrength d) :
    ReadAs d (.binary op left right) := by
  intro ws fs rest hws
  rw [leftStrength_operation hd] at hws
  rw [rightStrength_operation hd]
  obtain ⟨l, hl, hop⟩ := BinaryOp.operator?_token hd
  obtain ⟨a, qs, hrunLeft, hamountLeft⟩ := hleft ws fs (l :: (right.lexemes d ++ rest))
    fun w hw => Nat.lt_of_lt_of_le (hws w hw) (Nat.min_le_right _ _)
  -- the operators that waited before bind less than this one, and go on waiting
  have hcomplete : complete op.strength a qs = (left, ws) := by
    rw [hamountLeft _ hleftStrength,
      complete_eq fun w hw => Nat.lt_of_lt_of_le (hws w hw) (Nat.min_le_left _ _)]
  obtain ⟨b, rs, hrunRight, hamountRight⟩ := hright (⟨left, op⟩ :: ws) fs rest fun w hw => by
    rw [← Option.some.inj hw]
    exact hrightStrength
  refine ⟨b, rs, ?_, ?_⟩
  · have hstep : step d ⟨.operator a, qs, fs⟩ l = some ⟨.operand, ⟨left, op⟩ :: ws, fs⟩ := by
      show operatorStep d _ a l = _
      rw [operatorStep_of_operator? hop]
      simp only [hcomplete]
    rw [lexemes_operation hd, hl, List.append_assoc, List.append_assoc, List.singleton_append,
      hrunLeft, run_cons hstep, hrunRight]
  · intro s hs
    rw [hamountRight s (Nat.le_trans hs (Nat.min_le_right _ _)),
      complete_cons_of_le (Nat.le_trans hs (Nat.min_le_left _ _))]

/-- The rest of a list, after its first member. -/
theorem run_members {subject : Expr} {negated : Bool} {ws : List Waiting} {fs : List Frame}
    (rest : List Lexeme) {others : List Expr} (h : ∀ m ∈ others, ReadAs d m)
    {before : List Expr} {member operand : Expr} {waiting : List Waiting}
    (hamount : (complete 0 operand waiting).1 = member) :
    run d ⟨.operator operand, waiting, ⟨.members subject negated before, ws⟩ :: fs⟩
        (Tokens.lexemes d (tokensAfterComma d others) ++ .mark .closeParen :: rest) =
      run d ⟨.operator (.isIn subject (before ++ member :: others) negated), ws, fs⟩ rest := by
  induction others generalizing before member operand waiting with
  | nil =>
    have hclose : step d ⟨.operator operand, waiting, ⟨.members subject negated before, ws⟩ :: fs⟩
        (.mark .closeParen) =
          some ⟨.operator (.isIn subject (before ++ [(complete 0 operand waiting).1]) negated),
            ws, fs⟩ := rfl
    show run d _ (.mark .closeParen :: rest) = _
    rw [run_cons hclose, hamount]
  | cons m others ih =>
    have hcomma : step d ⟨.operator operand, waiting, ⟨.members subject negated before, ws⟩ :: fs⟩
        (.mark .comma) =
          some ⟨.operand, [],
            ⟨.members subject negated (before ++ [(complete 0 operand waiting).1]), ws⟩ :: fs⟩ := rfl
    obtain ⟨b, rs, hrun, hm⟩ := (h m (List.mem_cons_self ..)).amount
      (⟨.members subject negated (before ++ [member]), ws⟩ :: fs)
      (Tokens.lexemes d (tokensAfterComma d others) ++ .mark .closeParen :: rest)
    have hlexemes : Tokens.lexemes d (tokensAfterComma d (m :: others)) ++
        .mark .closeParen :: rest = .mark .comma :: (m.lexemes d ++
          (Tokens.lexemes d (tokensAfterComma d others) ++ .mark .closeParen :: rest)) := by
      simp [Expr.lexemes, tokensAfterComma, Tokens.lexemes, Token.lexemes]
    rw [hlexemes, run_cons hcomma, hamount, hrun,
      ih (fun e he => h e (List.mem_cons_of_mem _ he)) hm, List.append_assoc]
    rfl

/-- The list of a membership, from its parenthesis on. -/
theorem run_list {subject : Expr} {negated : Bool} {first : Expr} {others : List Expr}
    (h : ∀ m ∈ first :: others, ReadAs d m) (ws : List Waiting) (fs : List Frame)
    (rest : List Lexeme) :
    run d ⟨.list subject negated, ws, fs⟩ (.mark .openParen :: (first.lexemes d ++
        (Tokens.lexemes d (tokensAfterComma d others) ++ .mark .closeParen :: rest))) =
      run d ⟨.operator (.isIn subject (first :: others) negated), ws, fs⟩ rest := by
  have hopen : step d ⟨.list subject negated, ws, fs⟩ (.mark .openParen) =
      some ⟨.operand, [], ⟨.members subject negated [], ws⟩ :: fs⟩ := rfl
  obtain ⟨a, qs, hrun, hfirst⟩ := (h first (List.mem_cons_self ..)).amount
    (⟨.members subject negated [], ws⟩ :: fs)
    (Tokens.lexemes d (tokensAfterComma d others) ++ .mark .closeParen :: rest)
  have hothers : ∀ m ∈ others, ReadAs d m := fun m hm => h m (List.mem_cons_of_mem _ hm)
  rw [run_cons hopen, hrun, run_members rest hothers hfirst, List.nil_append]

theorem run_membershipLexemes (negated : Bool) {operand subject : Expr} {qs ws : List Waiting}
    (hcomplete : complete 2 operand qs = (subject, ws)) (fs : List Frame) (rest : List Lexeme) :
    run d ⟨.operator operand, qs, fs⟩ (membershipLexemes negated ++ rest) =
      run d ⟨.list subject negated, ws, fs⟩ rest := by
  cases negated with
  | true =>
    have hnot : step d ⟨.operator operand, qs, fs⟩ (.ofKeyword .NOT) =
        some ⟨.membership (complete 2 operand qs).1, (complete 2 operand qs).2, fs⟩ := rfl
    have hin : step d ⟨.membership subject, ws, fs⟩ (.ofKeyword .IN) =
        some ⟨.list subject true, ws, fs⟩ := rfl
    show run d _ (.ofKeyword .NOT :: .ofKeyword .IN :: rest) = _
    rw [run_cons hnot, hcomplete, run_cons hin]
  | false =>
    have hin : step d ⟨.operator operand, qs, fs⟩ (.ofKeyword .IN) =
        some ⟨.list (complete 2 operand qs).1 false, (complete 2 operand qs).2, fs⟩ := rfl
    show run d _ (.ofKeyword .IN :: rest) = _
    rw [run_cons hin, hcomplete]

/-- A membership is read as written if its parts are and its subject binds tightly enough. -/
theorem ReadAs.isIn {subject first : Expr} {others : List Expr} (negated : Bool)
    (hsubject : ReadAs d subject) (hstrength : 2 ≤ subject.rightStrength d)
    (hmembers : ∀ m ∈ first :: others, ReadAs d m) :
    ReadAs d (.isIn subject (first :: others) negated) := by
  intro ws fs rest hws
  obtain ⟨a, qs, hrun, hamount⟩ := hsubject ws fs
    (membershipLexemes negated ++ .mark .openParen :: (first.lexemes d ++
      (Tokens.lexemes d (tokensAfterComma d others) ++ .mark .closeParen :: rest)))
    fun w hw => Nat.lt_of_lt_of_le (hws w hw) (Nat.min_le_right _ _)
  have hcomplete : complete 2 a qs = (subject, ws) := by
    rw [hamount _ hstrength,
      complete_eq fun w hw => Nat.lt_of_lt_of_le (hws w hw) (Nat.min_le_left _ _)]
  refine ⟨.isIn subject (first :: others) negated, ws, ?_, fun _ _ => rfl⟩
  rw [lexemes_isIn, listLexemes]
  simp only [List.append_assoc, List.cons_append, List.nil_append]
  rw [hrun, run_membershipLexemes negated hcomplete, run_list hmembers]

theorem readAs_of_legible {e : Expr} (h : Legible d e) : ReadAs d e := by
  induction h with
  | column table name => exact readAs_column table name
  | string value => exact readAs_string value
  | call hd _ _ hleft hright => exact .call hd hleft hright
  | operation hd _ hl _ hr hleft hright => exact .operation hd hleft hl hright hr
  | isIn negated _ hs _ hsubject hmembers => exact .isIn negated hsubject hs hmembers
  | paren _ hinner => exact .paren hinner

/-- A lexeme that an expression does not go on with ends it. -/
theorem step_eq_none {operand : Expr} {ws : List Waiting} {l : Lexeme} (h : l.goesOn d = false) :
    step d ⟨.operator operand, ws, []⟩ l = none := by
  have hop : l.operator? d = none := by simp_all [Lexeme.goesOn]
  have hnot : l ≠ .ofKeyword .NOT := by simp_all [Lexeme.goesOn]
  have hin : l ≠ .ofKeyword .IN := by simp_all [Lexeme.goesOn]
  have hdot : l ≠ .mark .dot := by simp_all [Lexeme.goesOn]
  show operatorStep d _ operand l = none
  unfold operatorStep
  rw [hop]
  simp only [if_neg hnot, if_neg hin]
  split
  next => exact absurd rfl hdot
  next => rfl
  next => rfl
  next => rfl

/-- An expression that is legible is read back, in front of anything that it does not go on with. -/
theorem read_lexemes_of_legible {e : Expr} (h : Legible d e) {rest : List Lexeme}
    (hrest : ∀ l ∈ rest.head?, l.goesOn d = false) :
    read d (e.lexemes d ++ rest) = some (e, rest) := by
  obtain ⟨operand, waiting, hrun, hamount⟩ := (readAs_of_legible h).amount [] rest
  have hfinished : finished? ⟨.operator operand, waiting, []⟩ = some e := congrArg some hamount
  rw [read, start, hrun]
  cases rest with
  | nil => rw [run, hfinished]; rfl
  | cons l rest => rw [run, step_eq_none (hrest l rfl), hfinished]; rfl

/-- So is one that groups its operands. -/
theorem read_lexemes {e : Expr} (h : Grouped d e) {rest : List Lexeme}
    (hrest : ∀ l ∈ rest.head?, l.goesOn d = false) :
    read d (e.lexemes d ++ rest) = some (e, rest) :=
  read_lexemes_of_legible h.legible.1 hrest

-- a = b || c || d AND e
example : read .sqlite [.name ['a'], .mark .equal, .name ['b'], .mark .concat, .name ['c'],
    .mark .concat, .name ['d'], .ofKeyword .AND, .name ['e']] =
      some (.binary .and
        (.binary .eq (.column none "a")
          (.binary .concat (.binary .concat (.column none "b") (.column none "c"))
            (.column none "d")))
        (.column none "e"), []) := by
  rfl

end ExprReader

end Joinery
