import Joinery.Proofs.Sql.Reading

/-!
# What the text of an expression is read as

An expression can be put together without the parentheses that its text would need, and its text is
then read as another expression. `regroup` is that expression: its text is the same
(`lexemes_regroup`), and it is legible (`legible_regroup`), so that it is what is read
(`read?_render`). It is found from the inside out. Where an operator stands between two texts that
are known, it only takes as much of the left one as binds at least as tightly as itself (`graft`),
and of the right one its operators are added one by one from the left (`combine`).
-/

namespace Joinery

namespace Expr

variable {d : Dialect} {chains : BinaryOp → Bool}

/-! ## Strengths -/

theorem one_le_strength (op : BinaryOp) : 1 ≤ op.strength := by
  cases op <;> decide

theorem strength_lt_four (op : BinaryOp) : op.strength < 4 := by
  cases op <;> decide

theorem one_le_leftStrength : (e : Expr) → 1 ≤ e.leftStrength d
  | binary op left right => by
    rw [leftStrength]
    split
    next => decide
    next => exact Nat.le_min.mpr ⟨one_le_strength op, one_le_leftStrength left⟩
  | isIn subject _ _ => Nat.le_min.mpr ⟨by decide, one_le_leftStrength subject⟩
  | column _ _ | string _ | paren _ => (by decide : 1 ≤ 4)

theorem one_le_rightStrength : (e : Expr) → 1 ≤ e.rightStrength d
  | binary op left right => by
    rw [rightStrength]
    split
    next => decide
    next => exact Nat.le_min.mpr ⟨one_le_strength op, one_le_rightStrength right⟩
  | column _ _ | string _ | paren _ | isIn _ _ _ => (by decide : 1 ≤ 4)

/-- A part can only be taken from the right end of an operand where it can be from the left. -/
theorem Placed.leftStrength_le {e : Expr} (h : e.Placed d chains) :
    e.leftStrength d ≤ e.rightStrength d := by
  induction h with
  | column table name => exact Nat.le_refl 4
  | string value => exact Nat.le_refl 4
  | call hd _ _ _ _ => exact Nat.le_of_eq ((leftStrength_call hd _ _).trans
      (rightStrength_call hd _ _).symm)
  | @operation op left right hd _ _ _ hr _ hright =>
    have hop := op.strength_le_least chains
    rw [leftStrength_operation hd, rightStrength_operation hd]
    omega
  | isIn negated _ _ _ _ _ => exact Nat.le_trans (Nat.min_le_left _ _) (by decide : 2 ≤ 4)
  | paren _ _ => exact Nat.le_refl 4

/-- An operation holds together at its right end as its operator does. -/
theorem Placed.rightStrength_operation {op : BinaryOp} {left right : Expr}
    (hd : op ≠ .concat ∨ d.hasConcatOperator = true) (hright : right.Placed d chains)
    (hr : op.least chains ≤ right.leftStrength d) : (binary op left right).rightStrength d = op.strength := by
  have hop := op.strength_le_least chains
  have hle := hright.leftStrength_le
  rw [Expr.rightStrength_operation hd]
  omega

/-- Only a conjunction is loose at its left end like one. -/
theorem Placed.two_le_leftStrength {e : Expr} (h : e.Placed d chains)
    (htwo : 2 ≤ e.rightStrength d) : 2 ≤ e.leftStrength d := by
  induction h with
  | column table name => exact (by decide : 2 ≤ 4)
  | string value => exact (by decide : 2 ≤ 4)
  | call hd _ _ _ _ => rw [leftStrength_call hd]; decide
  | operation hd _ hl _ _ hleft _ =>
    rw [Expr.rightStrength_operation hd] at htwo
    rw [leftStrength_operation hd]
    have := hleft (by omega)
    omega
  | isIn negated _ hs _ hsubject _ => exact Nat.le_min.mpr ⟨Nat.le_refl 2, hsubject hs⟩
  | paren _ _ => exact (by decide : 2 ≤ 4)

/-! ## Taking the end of an operand -/

/-- What becomes of an expression where an operator follows. `make` is applied to as much of its
right end as binds at least as tightly as `strength`. -/
def graft (d : Dialect) (strength : Nat) (make : Expr → Expr) : Expr → Expr
  | binary op left right =>
    if (op ≠ .concat ∨ d.hasConcatOperator = true) ∧ op.strength < strength then
      binary op left (graft d strength make right)
    else make (binary op left right)
  | e => make e

/-- Where an operator binds less tightly the graft goes on in its right operand. -/
theorem graft_operation {op : BinaryOp} (hd : op ≠ .concat ∨ d.hasConcatOperator = true)
    {strength : Nat} (hlt : op.strength < strength) (make : Expr → Expr) (left right : Expr) :
    graft d strength make (binary op left right) =
      binary op left (graft d strength make right) :=
  if_pos ⟨hd, hlt⟩

/-- An operand that is tight enough is taken altogether. -/
theorem Placed.graft_of_le {e : Expr} (h : e.Placed d chains) {strength : Nat}
    (hle : strength ≤ e.rightStrength d) (make : Expr → Expr) : graft d strength make e = make e := by
  cases h with
  | column table name => rfl
  | string value => rfl
  | call hd _ _ =>
    refine if_neg fun hop => ?_
    rw [hd] at hop
    exact absurd hop.1 (by decide)
  | operation hd _ _ hright hr =>
    rw [hright.rightStrength_operation hd hr] at hle
    exact if_neg fun hop => absurd hop.2 (Nat.not_lt.mpr hle)
  | isIn negated _ _ _ => rfl
  | paren _ => rfl

/-- What is not taken altogether is an operation that binds less, and its right operand is what a
part is taken of. -/
theorem Placed.graft_of_lt {e : Expr} (h : e.Placed d chains) {strength : Nat}
    (hstrength : strength ≤ 4) (hlt : e.rightStrength d < strength) (make : Expr → Expr) :
    ∃ op left right, e = binary op left right ∧ op.strength < strength ∧
      graft d strength make e = binary op left (graft d strength make right) := by
  have hfour {x : Nat} (hx : x = 4) (hlt : x < strength) : False := by omega
  cases h with
  | column table name => exact (hfour rfl hlt).elim
  | string value => exact (hfour rfl hlt).elim
  | call hd _ _ => exact (hfour (rightStrength_call hd _ _) hlt).elim
  | operation hd _ _ hright hr =>
    rw [hright.rightStrength_operation hd hr] at hlt
    exact ⟨_, _, _, rfl, hlt, graft_operation hd hlt make _ _⟩
  | isIn negated _ _ _ => exact (hfour rfl hlt).elim
  | paren _ => exact (hfour rfl hlt).elim

theorem lexemes_graft {strength : Nat} {make : Expr → Expr} {after : List Lexeme}
    (hmake : ∀ e, (make e).lexemes d = e.lexemes d ++ after) :
    (e : Expr) → (graft d strength make e).lexemes d = e.lexemes d ++ after
  | binary op left right => by
    rw [graft]
    split
    next hop =>
      rw [lexemes_operation hop.1, lexemes_operation hop.1, lexemes_graft hmake right]
      simp only [List.append_assoc]
    next => exact hmake _
  | column _ _ | string _ | paren _ | isIn _ _ _ => hmake _

/-- What `make` does to an operand that is tight enough, it does to the end of any other. -/
theorem legible_graft {strength : Nat} (hstrength : strength ≤ 4) {make : Expr → Expr}
    (hmake : ∀ e, e.Legible d → strength ≤ e.rightStrength d →
      (make e).Legible d ∧ (make e).leftStrength d = min strength (e.leftStrength d))
    {e : Expr} (h : e.Legible d) :
    (graft d strength make e).Legible d ∧
      (graft d strength make e).leftStrength d = min strength (e.leftStrength d) := by
  induction h with
  | column table name => exact hmake _ (.column table name) hstrength
  | string value => exact hmake _ (.string value) hstrength
  | @call left right hd hleft hright _ _ =>
    have h : (binary .concat left right).Legible d := .call hd hleft hright
    have htight := Nat.le_trans hstrength (Nat.le_of_eq (rightStrength_call hd left right).symm)
    rw [h.graft_of_le htight]
    exact hmake _ h htight
  | @operation op left right hd hleft hl hright hr _ ih =>
    have h : (binary op left right).Legible d := .operation hd hleft hl hright hr
    rcases Nat.lt_or_ge op.strength strength with hlt | hge
    · have hr : op.strength < right.leftStrength d := hr
      have hends : op.strength < (graft d strength make right).leftStrength d := by
        rw [ih.2]
        exact Nat.lt_min.mpr ⟨hlt, hr⟩
      rw [graft_operation hd hlt, leftStrength_operation hd, leftStrength_operation hd]
      exact ⟨.operation hd hleft hl ih.1 hends, by omega⟩
    · have hends : (binary op left right).rightStrength d = op.strength :=
        hright.rightStrength_operation hd hr
      have htight := Nat.le_trans hge (Nat.le_of_eq hends.symm)
      rw [h.graft_of_le htight]
      exact hmake _ h htight
  | isIn negated hsubject hs hmembers _ _ =>
    exact hmake _ (.isIn negated hsubject hs hmembers) hstrength
  | paren hinner _ => exact hmake _ (.paren hinner) hstrength

/-! ## An operator between two texts -/

/-- What is read where an operator stands between two texts that are read as `left` and as the
expression that is given last. -/
def combine (d : Dialect) (op : BinaryOp) (left : Expr) : Expr → Expr
  | binary other first second =>
    if op.strength < (binary other first second).leftStrength d then
      graft d op.strength (binary op · (binary other first second)) left
    else graft d other.strength (binary other · second) (combine d op left first)
  | isIn subject members negated =>
    if op.strength < (isIn subject members negated).leftStrength d then
      graft d op.strength (binary op · (isIn subject members negated)) left
    else graft d 2 (isIn · members negated) (combine d op left subject)
  | right => graft d op.strength (binary op · right) left

/-- The operator takes the text after it altogether, if that is tighter. -/
theorem combine_of_lt {op : BinaryOp} {right : Expr} (h : op.strength < right.leftStrength d)
    (left : Expr) : combine d op left right = graft d op.strength (binary op · right) left := by
  cases right with
  | binary other first second => exact if_pos h
  | isIn subject members negated => exact if_pos h
  | column _ _ | string _ | paren _ => rfl

/-- Otherwise it takes what the first operator in that text leaves it, and that operator what is
then on its left. -/
theorem combine_binary {op other : BinaryOp} {first second : Expr}
    (h : ¬ op.strength < (binary other first second).leftStrength d) (left : Expr) :
    combine d op left (binary other first second) =
      graft d other.strength (binary other · second) (combine d op left first) :=
  if_neg h

/-- A membership that binds less tightly takes what is combined as its subject. -/
theorem combine_isIn {op : BinaryOp} {subject : Expr} {members : List Expr} {negated : Bool}
    (h : ¬ op.strength < (isIn subject members negated).leftStrength d) (left : Expr) :
    combine d op left (isIn subject members negated) =
      graft d 2 (isIn · members negated) (combine d op left subject) :=
  if_neg h

/-- Induction on what stands after an operator: it is tight enough to be taken altogether, or it
begins with an operand that the operator takes something of. -/
@[elab_as_elim]
theorem Placed.inductionAfter (op : BinaryOp) {motive : (e : Expr) → e.Placed d chains → Prop}
    (tight : ∀ (e : Expr) (h : e.Placed d chains), op.strength < e.leftStrength d → motive e h)
    (operation : ∀ (other : BinaryOp) (first second : Expr)
      (hd : other ≠ .concat ∨ d.hasConcatOperator = true)
      (hfirst : first.Placed d chains) (hl : other.strength ≤ first.rightStrength d)
      (hsecond : second.Placed d chains) (hr : other.least chains ≤ second.leftStrength d),
      ¬ op.strength < (binary other first second).leftStrength d → motive first hfirst →
      motive (binary other first second) (.operation hd hfirst hl hsecond hr))
    (membership : ∀ (subject member : Expr) (others : List Expr) (negated : Bool)
      (hsubject : subject.Placed d chains) (hs : 2 ≤ subject.rightStrength d)
      (hmembers : ∀ m ∈ member :: others, m.Placed d chains),
      ¬ op.strength < (Expr.isIn subject (member :: others) negated).leftStrength d →
      motive subject hsubject →
      motive (Expr.isIn subject (member :: others) negated) (.isIn negated hsubject hs hmembers))
    {e : Expr} (h : e.Placed d chains) : motive e h := by
  induction h with
  | column table name => exact tight _ _ (strength_lt_four op)
  | string value => exact tight _ _ (strength_lt_four op)
  | call hd _ _ _ _ => exact tight _ _ (by rw [leftStrength_call hd]; exact strength_lt_four op)
  | @operation other first second hd hfirst hl hsecond hr ih _ =>
    by_cases hlt : op.strength < (binary other first second).leftStrength d
    · exact tight _ _ hlt
    · exact operation other first second hd hfirst hl hsecond hr hlt ih
  | @isIn subject member others negated hsubject hs hmembers ih _ =>
    by_cases hlt : op.strength < (Expr.isIn subject (member :: others) negated).leftStrength d
    · exact tight _ _ hlt
    · exact membership subject member others negated hsubject hs hmembers hlt ih
  | paren _ _ => exact tight _ _ (strength_lt_four op)

/-- Combining keeps the order of the lexemes. -/
theorem lexemes_combine {op : BinaryOp} (hop : op ≠ .concat ∨ d.hasConcatOperator = true)
    (left : Expr) {right : Expr} (h : right.Placed d chains) :
    (combine d op left right).lexemes d =
      left.lexemes d ++ (op.token.lexemes d ++ right.lexemes d) := by
  induction h using Placed.inductionAfter op with
  | tight right _ hlt =>
    rw [combine_of_lt hlt]
    exact lexemes_graft (fun e => lexemes_operation hop e right) left
  | operation other first second hd _ _ _ _ hloose ih =>
    rw [combine_binary hloose, lexemes_graft (fun e => lexemes_operation hd e second), ih,
      lexemes_operation hd]
    simp only [List.append_assoc]
  | membership subject member others negated _ _ _ hloose ih =>
    rw [combine_isIn hloose, lexemes_graft (fun e => lexemes_isIn e member others negated), ih,
      lexemes_isIn]
    simp only [List.append_assoc]

/-- Combining legible expressions gives a legible one. -/
theorem legible_combine {op : BinaryOp} (hop : op ≠ .concat ∨ d.hasConcatOperator = true)
    {left right : Expr} (hleft : left.Legible d) (h : right.Legible d) :
    (combine d op left right).Legible d := by
  induction h using Placed.inductionAfter op with
  | tight right hright hlt =>
    rw [combine_of_lt hlt]
    refine (legible_graft (Nat.le_of_lt (strength_lt_four op)) (fun e he hl => ?_) hleft).1
    exact ⟨.operation hop he hl hright hlt, leftStrength_operation hop e right⟩
  | operation other first second hd _ _ hsecond hr hloose ih =>
    rw [combine_binary hloose]
    refine (legible_graft (Nat.le_of_lt (strength_lt_four other)) (fun e he hl => ?_) ih).1
    exact ⟨.operation hd he hl hsecond hr, leftStrength_operation hd e second⟩
  | membership subject member others negated _ _ hmembers hloose ih =>
    rw [combine_isIn hloose]
    refine (legible_graft (by decide) (fun e he hl => ?_) ih).1
    exact ⟨.isIn negated he hl hmembers, rfl⟩

/-! ## Whole expressions -/

mutual
/-- What the text of an expression is read as. -/
def regroup (d : Dialect) : Expr → Expr
  | binary op left right =>
    if op = .concat ∧ ¬ d.hasConcatOperator then binary op (regroup d left) (regroup d right)
    else combine d op (regroup d left) (regroup d right)
  | isIn subject members negated =>
    graft d 2 (isIn · (regroupAll d members) negated) (regroup d subject)
  | paren inner => paren (regroup d inner)
  | e => e

/-- The regroupings of the expressions of a list. -/
def regroupAll (d : Dialect) : List Expr → List Expr
  | [] => []
  | e :: rest => regroup d e :: regroupAll d rest
end

/-- The members of a list are regrouped each for itself. -/
theorem regroupAll_eq_map (es : List Expr) : regroupAll d es = es.map (regroup d) := by
  induction es with
  | nil => rfl
  | cons e rest ih => rw [regroupAll, ih, List.map_cons]

/-- The operands of a call are regrouped each for itself. -/
theorem regroup_call (h : d.hasConcatOperator = false) (left right : Expr) :
    regroup d (binary .concat left right) = binary .concat (regroup d left) (regroup d right) := by
  rw [regroup, if_pos ⟨rfl, by rw [h]; decide⟩]

/-- The operands of an operation are regrouped and then combined. -/
theorem regroup_operation {op : BinaryOp} (h : op ≠ .concat ∨ d.hasConcatOperator = true)
    (left right : Expr) :
    regroup d (binary op left right) = combine d op (regroup d left) (regroup d right) := by
  rw [regroup, if_neg fun hcall => hcall.2 (h.resolve_left (· hcall.1))]

/-- An operator is written as a call, or between its operands. -/
theorem call_or_operation (d : Dialect) (op : BinaryOp) :
    (op = .concat ∧ d.hasConcatOperator = false) ∨ (op ≠ .concat ∨ d.hasConcatOperator = true) := by
  by_cases hop : op = .concat
  · cases hd : d.hasConcatOperator with
    | false => exact .inl ⟨hop, rfl⟩
    | true => exact .inr (.inr rfl)
  · exact .inr (.inl hop)

/-- No list is empty. -/
inductive Filled : Expr → Prop
  | column (table : Option String) (name : String) : Filled (column table name)
  | string (value : String) : Filled (string value)
  | binary (op : BinaryOp) {left right : Expr} :
    Filled left → Filled right → Filled (binary op left right)
  | isIn {subject first : Expr} {others : List Expr} (negated : Bool) :
    Filled subject → (∀ m ∈ first :: others, Filled m) →
    Filled (isIn subject (first :: others) negated)
  | paren {inner : Expr} : Filled inner → Filled (paren inner)

/-- Only what has no empty list is well placed. -/
theorem Placed.filled {e : Expr} (h : e.Placed d chains) : e.Filled := by
  induction h with
  | column table name => exact .column table name
  | string value => exact .string value
  | call _ _ _ hleft hright => exact .binary _ hleft hright
  | operation _ _ _ _ _ hleft hright => exact .binary _ hleft hright
  | isIn negated _ _ _ hsubject hmembers => exact .isIn negated hsubject hmembers
  | paren _ hinner => exact .paren hinner

/-- What is regrouped is legible. -/
theorem legible_regroup {e : Expr} (h : e.Filled) : (regroup d e).Legible d := by
  induction h with
  | column table name => exact .column table name
  | string value => exact .string value
  | binary op _ _ hleft hright =>
    rcases call_or_operation d op with ⟨rfl, hd⟩ | hd
    · rw [regroup_call hd]
      exact .call hd hleft hright
    · rw [regroup_operation hd]
      exact legible_combine hd hleft hright
  | isIn negated _ _ hsubject hmembers =>
    refine (legible_graft (by decide) (fun e he hl => ⟨?_, rfl⟩) hsubject).1
    rw [regroupAll_eq_map]
    exact .isIn negated he hl (by simpa using hmembers)
  | paren _ hinner => exact .paren hinner

/-- Members with the same lexemes have them in the list too. -/
theorem lexemes_tokensAfterComma_map {f : Expr → Expr} {es : List Expr}
    (h : ∀ e ∈ es, (f e).lexemes d = e.lexemes d) :
    Tokens.lexemes d (tokensAfterComma d (es.map f)) = Tokens.lexemes d (tokensAfterComma d es) := by
  have hcons (e : Expr) (rest : List Expr) : Tokens.lexemes d (tokensAfterComma d (e :: rest)) =
      .mark .comma :: (e.lexemes d ++ Tokens.lexemes d (tokensAfterComma d rest)) := by
    simp [lexemes, tokensAfterComma, Tokens.lexemes, Token.lexemes]
  induction es with
  | nil => rfl
  | cons e rest ih =>
    rw [List.map_cons, hcons, hcons, h e (List.mem_cons_self ..),
      ih fun m hm => h m (List.mem_cons_of_mem _ hm)]

/-- The text does not change. -/
theorem lexemes_regroup {e : Expr} (h : e.Filled) : (regroup d e).lexemes d = e.lexemes d := by
  induction h with
  | column table name => rfl
  | string value => rfl
  | @binary op left right _ hright hleftLexemes hrightLexemes =>
    rcases call_or_operation d op with ⟨rfl, hd⟩ | hd
    · rw [regroup_call hd, lexemes_call hd, lexemes_call hd, hleftLexemes, hrightLexemes]
    · rw [regroup_operation hd, lexemes_combine hd _ (legible_regroup hright), hleftLexemes,
        hrightLexemes, lexemes_operation hd]
  | @isIn subject first others negated _ _ hsubject hmembers =>
    have hfirst := hmembers first (List.mem_cons_self ..)
    have hothers : Tokens.lexemes d (tokensAfterComma d (others.map (regroup d))) =
        Tokens.lexemes d (tokensAfterComma d others) :=
      lexemes_tokensAfterComma_map fun m hm => hmembers m (List.mem_cons_of_mem _ hm)
    rw [regroup, regroupAll_eq_map, List.map_cons,
      lexemes_graft (fun e => lexemes_isIn e (regroup d first) (others.map (regroup d)) negated),
      hsubject, lexemes_isIn, listLexemes, listLexemes, hfirst, hothers]
  | paren _ hinner => rw [regroup, lexemes_paren, lexemes_paren, hinner]

/-! ## Reading texts -/

/-- The expression that a text is. -/
def read? (d : Dialect) (text : String) : Option Expr := do
  let (e, []) ← ExprReader.read d (← lex d text.toList) | none
  return e

/-- A text with the lexemes of an expression is read as its regrouping. -/
theorem read?_of_lex {e : Expr} (h : e.Filled) {text : String}
    (htext : lex d text.toList = some (e.lexemes d)) : read? d text = some (regroup d e) := by
  have hread : ExprReader.read d ((regroup d e).lexemes d ++ []) = some (regroup d e, []) :=
    ExprReader.read_lexemes_of_legible (legible_regroup h) fun l hl => absurd hl (by simp)
  rw [List.append_nil, lexemes_regroup h] at hread
  unfold read?
  rw [htext]
  show (ExprReader.read d _).bind _ = _
  rw [hread]
  rfl

/-- The tokens of an expression are well-spelled. -/
theorem wellSpelled_tokens (e : Expr) : Tokens.WellSpelled (e.tokens d) := by
  have h := wellSpelled_append d .nil e
  rwa [List.append_nil] at h

/-- Over several lines an expression is read as its regrouping. -/
theorem read?_render {e : Expr} (h : e.Filled) : read? d (e.render d) = some (regroup d e) := by
  apply read?_of_lex h
  rw [render, Tokens.render, String.toList_ofList]
  exact Tokens.lex_chars d e.wellSpelled_tokens

theorem read?_renderCompact {e : Expr} (h : e.Filled) :
    read? d ((e.tokens d).renderCompact d) = some (regroup d e) := by
  apply read?_of_lex h
  rw [Tokens.renderCompact, String.toList_ofList]
  exact Tokens.lex_compactChars d e.wellSpelled_tokens

end Expr

end Joinery
