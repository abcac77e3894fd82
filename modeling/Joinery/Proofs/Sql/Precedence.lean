import Joinery.Proofs.Sql.Alike
import Joinery.Proofs.Sql.Regrouping
import Joinery.Proofs.Sql.Statements

/-!
# What texts of expressions mean

No operator puts parentheses around its operands: where the text of an expression needs them, they
have to be part of the expression. `Fits` says that no more are needed, and it is the exact condition
under which the text of an expression is read as an expression alike with it. Operators that
associate may be nested to the right, since reading them from the left makes no difference then.
The argument is about one operator between two texts. If both operands bind tightly enough, they are
what the operator combines (`plain_combine`); and if what is read has operands that are as wide as
the two, they do (`strengths_of_plain_combine`).

A conjunction is never too tight for its operands. Therefore a condition that is made of filters
means the conjunction of what each of the filters means by itself (`plain_regroup_foldl`).

The texts are those of `Expr.tokens`, and filters are added by `Query.withFilter`.
-/

namespace Joinery

namespace Expr

variable {d : Dialect}

/-- Every operand binds tightly enough for its place, but for the order in which a chain of
conjunctions or of concatenations is nested. -/
abbrev Fits (d : Dialect) : Expr → Prop :=
  Placed d BinaryOp.isAssociative

/-! ## Widths -/

/-- The list of a membership adds nothing. -/
theorem width_isIn (subject : Expr) (members : List Expr) (negated : Bool) :
    (isIn subject members negated).width = subject.width + 0 :=
  rfl

/-- Grafting makes an expression wider by what is grafted. -/
theorem width_graft {strength k : Nat} {make : Expr → Expr}
    (hmake : ∀ e, (make e).width = e.width + k) :
    (e : Expr) → (graft d strength make e).width = e.width + k
  | binary op left right => by
    rw [graft]
    split
    next => rw [width, width_graft hmake right, width, Nat.add_assoc]
    next => exact hmake _
  | column _ _ | string _ | paren _ | isIn _ _ _ => hmake _

theorem width_combine (op : BinaryOp) (left : Expr) :
    (right : Expr) → (combine d op left right).width = left.width + right.width
  | binary other first second => by
    rw [combine]
    split
    next => exact width_graft (fun _ => rfl) left
    next => rw [width_graft (fun _ => rfl), width_combine op left first, width, Nat.add_assoc]
  | isIn subject members negated => by
    rw [combine]
    split
    next => exact width_graft (fun _ => rfl) left
    next =>
      rw [width_graft (fun e => width_isIn e members negated), width_combine op left subject, width]
      rfl
  | column _ _ | string _ | paren _ => width_graft (fun _ => rfl) left

theorem width_regroup : (e : Expr) → (regroup d e).width = e.width
  | binary op left right => by
    rw [regroup]
    split
    next => rw [width, width_regroup left, width_regroup right, width]
    next => rw [width_combine, width_regroup left, width_regroup right, width]
  | isIn subject members negated => by
    rw [regroup, width_graft (fun e => width_isIn e _ negated), width_regroup subject, width]
    rfl
  | paren inner => by rw [regroup, width, width_regroup inner, width]
  | column _ _ | string _ => rfl

/-! ## One operator between two texts -/

/-- Associative operators are the weakest and the strongest. -/
theorem strength_of_isAssociative {op : BinaryOp} (h : op.isAssociative = true) :
    op.strength = 1 ∨ op.strength = 3 := by
  cases op with
  | and => exact .inl rfl
  | concat => exact .inr rfl
  | eq | ne | like => exact absurd h Bool.false_ne_true

/-- An operator that associates is the only one of its strength. -/
theorem eq_of_strength_eq {op other : BinaryOp} (h : op.isAssociative = true)
    (hstrength : other.strength = op.strength) : other = op := by
  cases op <;> cases other <;> simp_all [BinaryOp.isAssociative, BinaryOp.strength]

/-- Only an operator that associates may have a right operand that binds no more tightly than it. -/
theorem isAssociative_of_least_le {op : BinaryOp} {strength : Nat}
    (h : op.least BinaryOp.isAssociative ≤ strength) (hle : strength ≤ op.strength) :
    op.isAssociative = true := by
  cases hop : op.isAssociative with
  | true => rfl
  | false =>
    rw [BinaryOp.least, hop, if_neg Bool.false_ne_true] at h
    omega

/-- Operands that bind tightly enough are those that the operator combines. -/
theorem plain_combine {op : BinaryOp} (hop : op ≠ .concat ∨ d.hasConcatOperator = true)
    {left right : Expr} (hleft : left.Legible d) (hl : op.strength ≤ left.rightStrength d)
    (h : right.Legible d) (hr : op.least BinaryOp.isAssociative ≤ right.leftStrength d) :
    plain (combine d op left right) = link op (plain left) (plain right) ∧
      (combine d op left right).leftStrength d = min op.strength (left.leftStrength d) ∧
      (combine d op left right).rightStrength d = op.strength := by
  induction h using Placed.inductionAfter op with
  | tight right hright hlt =>
    rw [combine_of_lt hlt, hleft.graft_of_le hl]
    exact ⟨plain_binary _ _ _, leftStrength_operation hop _ _,
      hright.rightStrength_operation hop hlt⟩
  | operation other first second hd hfirst hfirstEnd hsecond hsecondEnd hloose ih =>
    have hassoc := isAssociative_of_least_le hr (Nat.not_lt.mp hloose)
    have hends := leftStrength_operation hd first second
    -- what begins the right operand binds as the operator does, and only it does
    have hsame : other = op := by
      have hleast := op.strength_le_least BinaryOp.isAssociative
      have hfour := strength_lt_four other
      have htwo := hfirst.two_le_leftStrength
      have hop := strength_of_isAssociative hassoc
      exact eq_of_strength_eq hassoc (by omega)
    subst hsame
    obtain ⟨hplain, hleftEnd, hrightEnd⟩ := ih (by omega)
    rw [combine_binary hloose,
      (legible_combine hop hleft hfirst).graft_of_le (Nat.le_of_eq hrightEnd.symm), plain_binary,
      plain_binary, hplain, link_assoc hassoc, leftStrength_operation hop, hleftEnd]
    exact ⟨rfl, by omega, hsecond.rightStrength_operation hop hsecondEnd⟩
  | membership subject member others negated hsubject hs _ hloose _ =>
    have hop := strength_of_isAssociative (isAssociative_of_least_le hr (Nat.not_lt.mp hloose))
    have hleast := op.strength_le_least BinaryOp.isAssociative
    have htwo := hsubject.two_le_leftStrength hs
    rw [leftStrength] at hloose hr
    omega

/-- An operation in what becomes of an expression is one that was added to it altogether, or one that
was there before and binds less. -/
theorem graft_cases {strength : Nat} (hstrength : strength ≤ 4) {make : Expr → Expr} {e : Expr}
    (h : e.Legible d) {op : BinaryOp} {first second : Expr}
    (hplain : plain (graft d strength make e) = link op first second) :
    (strength ≤ e.rightStrength d ∧ plain (make e) = link op first second) ∨
      ∃ left rest rest', e = binary op left rest ∧ op.strength < strength ∧
        link op (plain left) rest' = link op first second := by
  rcases Nat.lt_or_ge (e.rightStrength d) strength with hlt | hle
  · obtain ⟨before, left, rest, rfl, hbefore, hgraft⟩ := h.graft_of_lt hstrength hlt make
    rw [hgraft, plain_binary] at hplain
    obtain rfl := link_op hplain
    exact .inr ⟨left, rest, _, rfl, hbefore, hplain⟩
  · rw [h.graft_of_le hle] at hplain
    exact .inl ⟨hle, hplain⟩

/-- Every operator but AND binds tighter than AND. -/
theorem eq_and_or_two_le (op : BinaryOp) : op = .and ∨ 2 ≤ op.strength := by
  cases op with
  | and => exact .inl rfl
  | eq | ne | like | concat => exact .inr (by decide)

/-- If what is read where an operator stands between two texts looks like an operation of it, and
its left operand is as wide as the left one, then both bind tightly enough. -/
theorem strengths_of_plain_combine {op : BinaryOp}
    (hop : op ≠ .concat ∨ d.hasConcatOperator = true) {left right : Expr} (hleft : left.Legible d)
    (h : right.Legible d) {first second : Expr}
    (hplain : plain (combine d op left right) = link op first second)
    (hwidth : first.width = left.width) :
    op.strength ≤ left.rightStrength d ∧
      op.least BinaryOp.isAssociative ≤ right.leftStrength d := by
  have hleast := op.least_le BinaryOp.isAssociative
  rcases eq_and_or_two_le op with rfl | htwo
  · exact ⟨one_le_rightStrength left, one_le_leftStrength right⟩
  induction h using Placed.inductionAfter op generalizing second with
  | tight right _ hlt =>
    rw [combine_of_lt hlt] at hplain
    rcases graft_cases (Nat.le_of_lt (strength_lt_four op)) hleft hplain with
      ⟨hl, _⟩ | ⟨_, _, _, _, hbefore, _⟩
    · exact ⟨hl, Nat.le_trans hleast hlt⟩
    · exact absurd hbefore (Nat.lt_irrefl _)
  | operation other start rest hd hstart _ _ _ hloose ih =>
    rw [combine_binary hloose] at hplain
    rw [leftStrength_operation hd]
    rcases graft_cases (Nat.le_of_lt (strength_lt_four other)) (legible_combine hop hleft hstart)
      hplain with ⟨_, hlink⟩ | ⟨l, r, rest', hbefore, hother, hlink⟩
    · -- the operation is a longer chain: `start` was read as a part of it before
      rw [plain_binary] at hlink
      obtain rfl := link_op hlink
      have hwide : first.width < (plain (combine d other left start)).width := by
        have := start.width_pos
        rw [width_plain, width_combine]
        omega
      obtain ⟨hassoc, middle, hmiddle⟩ := link_cut hlink hwide
      obtain ⟨hl, hr⟩ := ih hmiddle
      exact ⟨hl, Nat.le_min.mpr ⟨Nat.le_of_eq (if_pos hassoc), hr⟩⟩
    · -- the operation was there before, and `rest` has been added to its right operand
      have hassoc : op.isAssociative = false := by
        refine Bool.eq_false_iff.mpr fun h => ?_
        have := strength_of_isAssociative h
        have := strength_lt_four other
        omega
      rw [link_eq_of_not hassoc, link_eq_of_not hassoc] at hlink
      injection hlink with _ hfirst _
      rw [hbefore, plain_binary, hfirst] at ih
      obtain ⟨hl, hr⟩ := ih rfl
      exact ⟨hl, Nat.le_min.mpr ⟨Nat.le_trans hleast hother, hr⟩⟩
  | membership subject member others negated hsubject _ _ hloose _ =>
    rw [combine_isIn hloose] at hplain
    rcases graft_cases (by decide) (legible_combine hop hleft hsubject) hplain with
      ⟨_, hlink⟩ | ⟨_, _, _, _, hbefore, _⟩
    · rw [plain_isIn] at hlink
      exact absurd hlink.symm (link_ne_isIn _ _ _ _ _ _)
    · exact absurd hbefore (Nat.not_lt.mpr htwo)

/-! ## Whole expressions -/

/-- What fits is read as it is meant, and holds together at its ends as what is read does. -/
theorem plain_regroup {e : Expr} (h : e.Fits d) :
    plain (regroup d e) = plain e ∧ (regroup d e).leftStrength d = e.leftStrength d ∧
      (regroup d e).rightStrength d = e.rightStrength d := by
  induction h with
  | column table name => exact ⟨rfl, rfl, rfl⟩
  | string value => exact ⟨rfl, rfl, rfl⟩
  | call hd _ _ hleft hright =>
    rw [regroup_call hd, plain_binary, plain_binary, hleft.1, hright.1, leftStrength_call hd,
      leftStrength_call hd, rightStrength_call hd, rightStrength_call hd]
    exact ⟨rfl, rfl, rfl⟩
  | @operation op left right hd hleftFits hl hrightFits hr hleft hright =>
    obtain ⟨hplain, hleftEnd, hrightEnd⟩ := plain_combine hd
      (legible_regroup hleftFits.filled) (by rwa [hleft.2.2])
      (legible_regroup hrightFits.filled) (by rwa [hright.2.1])
    rw [regroup_operation hd, hplain, hleft.1, hright.1, hleftEnd, hleft.2.1, hrightEnd,
      leftStrength_operation hd, hrightFits.rightStrength_operation hd hr, plain_binary]
    exact ⟨rfl, rfl, rfl⟩
  | isIn negated hsubjectFits hs _ hsubject hmembers =>
    rw [regroup, regroupAll_eq_map, (legible_regroup hsubjectFits.filled).graft_of_le
      (by rwa [hsubject.2.2]), plain_isIn, plain_isIn, hsubject.1, List.map_map, leftStrength,
      leftStrength, hsubject.2.1]
    exact ⟨congrArg (isIn _ · negated) (List.map_congr_left fun m hm => (hmembers m hm).1), rfl, rfl⟩
  | paren _ hinner =>
    rw [regroup, plain_paren, plain_paren, hinner.1]
    exact ⟨rfl, rfl, rfl⟩

/-- Nothing that does not fit is read as it is meant. -/
theorem fits_of_plain_regroup {e : Expr} (h : e.Filled) (hplain : plain (regroup d e) = plain e) :
    e.Fits d := by
  induction h with
  | column table name => exact .column table name
  | string value => exact .string value
  | @binary op left right hleftFilled hrightFilled hleft hright =>
    rcases call_or_operation d op with ⟨rfl, hd⟩ | hd
    · rw [regroup_call hd, plain_binary, plain_binary] at hplain
      obtain ⟨hl, hr⟩ := link_inj hplain (by rw [width_plain, width_plain, width_regroup])
      exact .call hd (hleft hl) (hright hr)
    · have hleftLegible := legible_regroup (d := d) hleftFilled
      have hrightLegible := legible_regroup (d := d) hrightFilled
      have hwidth : (plain left).width = (regroup d left).width := by
        rw [width_plain, width_regroup]
      rw [regroup_operation hd, plain_binary] at hplain
      obtain ⟨hl, hr⟩ := strengths_of_plain_combine hd hleftLegible hrightLegible hplain hwidth
      rw [(plain_combine hd hleftLegible hl hrightLegible hr).1] at hplain
      obtain ⟨hleftPlain, hrightPlain⟩ := link_inj hplain (by rw [hwidth, width_plain])
      have hleftFits := hleft hleftPlain
      have hrightFits := hright hrightPlain
      rw [(plain_regroup hleftFits).2.2] at hl
      rw [(plain_regroup hrightFits).2.1] at hr
      exact .operation hd hleftFits hl hrightFits hr
  | @isIn subject first others negated hsubjectFilled _ hsubject hmembers =>
    have hlegible := legible_regroup (d := d) hsubjectFilled
    rw [regroup, regroupAll_eq_map] at hplain
    rcases Nat.lt_or_ge ((regroup d subject).rightStrength d) 2 with hlt | hs
    · -- a looser operator in the subject has become what is read
      obtain ⟨op, l, r, _, _, hgraft⟩ := hlegible.graft_of_lt (by decide) hlt
        (isIn · ((first :: others).map (regroup d)) negated)
      rw [hgraft, plain_binary, plain_isIn] at hplain
      exact absurd hplain (link_ne_isIn _ _ _ _ _ _)
    · rw [hlegible.graft_of_le hs, plain_isIn, plain_isIn, List.map_map] at hplain
      injection hplain with hsubjectPlain hmembersPlain _
      have hsubjectFits := hsubject hsubjectPlain
      rw [(plain_regroup hsubjectFits).2.2] at hs
      exact .isIn negated hsubjectFits hs fun m hm =>
        hmembers m hm (List.map_inj_left.mp hmembersPlain m hm)
  | paren _ hinner =>
    rw [regroup, plain_paren, plain_paren] at hplain
    exact .paren (hinner hplain)

/-- The text of an expression, with and without its layout, is that of `r`. -/
structure ReadsAs (d : Dialect) (e r : Expr) : Prop where
  render : read? d (e.render d) = some r
  renderCompact : read? d ((e.tokens d).renderCompact d) = some r

/-- An expression without empty lists is read as its regrouping. -/
theorem readsAs_regroup {e : Expr} (h : e.Filled) : e.ReadsAs d (regroup d e) :=
  ⟨read?_render h, read?_renderCompact h⟩

theorem ReadsAs.eq_regroup {e r : Expr} (h : e.Filled) (hr : e.ReadsAs d r) : r = regroup d e :=
  Option.some.inj (hr.render.symm.trans (read?_render h))

/-- What is read is like what was written exactly if every operand fits its place. -/
theorem alike_regroup_iff {e : Expr} (h : e.Filled) : (regroup d e).Alike e ↔ e.Fits d :=
  ⟨fun halike => fits_of_plain_regroup h halike.plain_eq,
    fun hfits => alike_iff.mpr (plain_regroup hfits).1⟩

/-! ## Filters -/

/-- A conjunction of expressions without empty lists has none either. -/
theorem filled_foldl {e : Expr} (h : e.Filled) {fs : List Expr} (hfs : ∀ f ∈ fs, f.Filled) :
    (fs.foldl (binary .and) e).Filled := by
  induction fs generalizing e with
  | nil => exact h
  | cons f fs ih =>
    exact ih (.binary .and h (hfs f (List.mem_cons_self ..)))
      fun g hg => hfs g (List.mem_cons_of_mem _ hg)

/-- A conjunction fits if its parts do. -/
theorem fits_and_iff {left right : Expr} :
    (binary .and left right).Fits d ↔ left.Fits d ∧ right.Fits d := by
  constructor
  · intro h
    cases h with
    | operation _ hleft _ hright _ => exact ⟨hleft, hright⟩
  · intro ⟨hleft, hright⟩
    exact .operation (.inl (by decide)) hleft (one_le_rightStrength left) hright
      (one_le_leftStrength right)

theorem fits_foldl_iff {e : Expr} {fs : List Expr} :
    (fs.foldl (binary .and) e).Fits d ↔ e.Fits d ∧ ∀ f ∈ fs, f.Fits d := by
  induction fs generalizing e with
  | nil => simp
  | cons f fs ih => rw [List.foldl_cons, ih, fits_and_iff, List.forall_mem_cons, and_assoc]

/-- What a conjunction is read as is the conjunction of what its parts are read as. -/
theorem plain_regroup_and {left right : Expr} (hleft : left.Filled) (hright : right.Filled) :
    plain (regroup d (binary .and left right)) =
      link .and (plain (regroup d left)) (plain (regroup d right)) := by
  have hand : BinaryOp.and ≠ .concat ∨ d.hasConcatOperator = true := .inl (by decide)
  rw [regroup_operation hand]
  exact (plain_combine hand (legible_regroup hleft) (one_le_rightStrength _)
    (legible_regroup hright) (one_le_leftStrength _)).1

/-- A conjunction is regrouped conjunct by conjunct, up to likeness. -/
theorem plain_regroup_foldl {e r : Expr} (h : e.Filled) (hr : plain (regroup d e) = plain r)
    {fs : List Expr} (hfs : ∀ f ∈ fs, f.Filled) :
    plain (regroup d (fs.foldl (binary .and) e)) =
      plain ((fs.map (regroup d)).foldl (binary .and) r) := by
  induction fs generalizing e r with
  | nil => exact hr
  | cons f fs ih =>
    have hf := hfs f (List.mem_cons_self ..)
    refine ih (.binary .and h hf) ?_ fun g hg => hfs g (List.mem_cons_of_mem _ hg)
    rw [plain_regroup_and h hf, plain_binary, hr]

end Expr

namespace Query

/-- Filters are added to the conjunction that is there. -/
theorem filter_foldl_withFilter {q : Query} {e : Expr} (h : q.filter = some e) (fs : List Expr) :
    fs.foldl withFilter q = { q with filter := some (fs.foldl (.binary .and) e) } := by
  induction fs generalizing q e with
  | nil => rw [List.foldl_nil, List.foldl_nil, ← h]
  | cons f fs ih =>
    have hfilter : (q.withFilter f).filter = some (.binary .and e f) := by rw [withFilter, h]
    rw [List.foldl_cons, ih hfilter]
    rfl

/-- The filters of a query are one condition on its rows. -/
theorem foldl_withFilter {q : Query} (h : q.filter = none) (fs : List Expr) :
    fs.foldl withFilter q = { q with filter := Expr.all? fs } := by
  cases fs with
  | nil => rw [List.foldl_nil, Expr.all?, ← h]
  | cons f fs =>
    have hfilter : (q.withFilter f).filter = some f := by rw [withFilter, h]
    rw [List.foldl_cons, filter_foldl_withFilter hfilter]
    rfl

/-- The condition on the rows is the last clause. -/
theorem tokens_of_filter (d : Dialect) {q : Query} (h : q.filter = none) (e : Expr) :
    ({ q with filter := some e } : Query).tokens d =
      q.tokens d ++ ([Token.newline, .keyword .WHERE, .space] ++ e.tokens d) := by
  rw [tokens, tokens, h]
  simp only [List.append_nil]

/-- A query that can be read back but for its condition is read back with what the condition is read
as. -/
theorem read?_of_filled {d : Dialect} {q : Query} (h : q.Readable d) (hnone : q.filter = none)
    {e : Expr} (he : e.Filled) :
    read? d (({ q with filter := some e } : Query).render d) =
        some { q with filter := some (e.regroup d) } ∧
      read? d (({ q with filter := some e } : Query).renderCompact d) =
        some { q with filter := some (e.regroup d) } := by
  have hlexemes : Tokens.lexemes d (({ q with filter := some e } : Query).tokens d) =
      Tokens.lexemes d (({ q with filter := some (e.regroup d) } : Query).tokens d) := by
    have hsame := Expr.lexemes_regroup (d := d) he
    rw [Expr.lexemes, Expr.lexemes] at hsame
    rw [tokens_of_filter d hnone, tokens_of_filter d hnone]
    simp only [Tokens.lexemes_append, hsame]
  have hread {text : String} (htext : lex d text.toList =
      some (Tokens.lexemes d (({ q with filter := some e } : Query).tokens d))) :
      read? d text = some { q with filter := some (e.regroup d) } := by
    rw [hlexemes] at htext
    refine read?_of_lex_of_legible ?_ ?_ htext
    · rw [← hnone]
      exact h
    · intro f hf
      rw [← Option.some.inj hf]
      exact Expr.legible_regroup he
  constructor
  · apply hread
    rw [render, Tokens.render, String.toList_ofList]
    exact Tokens.lex_chars d (wellSpelled_tokens d _)
  · apply hread
    rw [renderCompact, Tokens.renderCompact, String.toList_ofList]
    exact Tokens.lex_compactChars d (wellSpelled_tokens d _)

end Query

namespace Expr

/-- The text of an expression is read as an expression alike with it if it fits, and only then. A
condition that is made of filters is read as the conjunction, in their order, of what each of them
is read as, and so it means the conjunction of the filters themselves if all of them fit. -/
theorem alike_iff_fits_of_readsAs (d : Dialect) :
    (∀ e : Expr, e.Filled → ∃ r, e.ReadsAs d r ∧ (r.Alike e ↔ e.Fits d)) ∧
      ∀ (q : Query) (fs : List Expr), q.filter = none → (∀ f ∈ fs, f.Filled) →
        fs.foldl Query.withFilter q = { q with filter := all? fs } ∧
          ∀ e ∈ all? fs,
            ({ q with filter := some e } : Query).tokens d =
                q.tokens d ++ ([.newline, .keyword .WHERE, .space] ++ e.tokens d) ∧
              ∃ r, e.ReadsAs d r ∧
                (∃ part : Expr → Expr, (∀ f ∈ fs, f.ReadsAs d (part f)) ∧
                  ∃ whole ∈ all? (fs.map part), r.Alike whole) ∧
                (r.Alike e ↔ ∀ f ∈ fs, f.Fits d) ∧
                (q.Readable d →
                  Query.read? d (({ q with filter := some e } : Query).render d) =
                      some { q with filter := some r } ∧
                    Query.read? d (({ q with filter := some e } : Query).renderCompact d) =
                      some { q with filter := some r }) := by
  refine ⟨fun e he => ⟨regroup d e, readsAs_regroup he, alike_regroup_iff he⟩, ?_⟩
  intro q fs hnone hfs
  refine ⟨Query.foldl_withFilter hnone fs, fun e hall => ⟨Query.tokens_of_filter d hnone e, ?_⟩⟩
  cases fs with
  | nil => exact absurd hall (by simp [all?])
  | cons f fs =>
    obtain rfl := Option.some.inj hall
    have hf := hfs f (List.mem_cons_self ..)
    have hrest : ∀ g ∈ fs, g.Filled := fun g hg => hfs g (List.mem_cons_of_mem _ hg)
    have hfilled := filled_foldl hf hrest
    refine ⟨regroup d _, readsAs_regroup hfilled, ?_, ?_, fun hq =>
      Query.read?_of_filled hq hnone hfilled⟩
    · refine ⟨regroup d, fun g hg => readsAs_regroup (hfs g hg), _, rfl, ?_⟩
      exact alike_iff.mpr (plain_regroup_foldl hf rfl hrest)
    · rw [alike_regroup_iff hfilled, fits_foldl_iff, List.forall_mem_cons]

/-- A comparison of a conjunction, without the parentheses that its text needs. -/
def bareComparison : Expr :=
  binary .eq (binary .and (column none "a") (column none "b")) (column none "c")

theorem filled_bareComparison : bareComparison.Filled :=
  .binary _ (.binary _ (.column none "a") (.column none "b")) (.column none "c")

/-- A concatenation that needs no parentheses, and a membership. -/
def openOrders : List Expr :=
  [binary .eq (column (some "o") "code")
    (binary .concat (string "open-") (binary .concat (column (some "o") "year") (string "%"))),
    isIn (column (some "o") "region") [string "north", string "south"] true]

/-- A query over orders, to be filtered. -/
def orders : Query :=
  { select := [⟨column (some "o") "id", some "id"⟩], source := some ⟨⟨none, "orders"⟩, some "o"⟩ }

/-- A comparison of a comparison is read otherwise than it was written, and so is a filter with
it. -/
theorem readsAs_openOrders :
    (∃ r, bareComparison.ReadsAs .generic r ∧
      (r.Alike bareComparison ↔ bareComparison.Fits .generic)) ∧
    ∃ e r, openOrders.foldl Query.withFilter orders = { orders with filter := some e } ∧
      e.ReadsAs .sqlite r ∧ r.Alike e ∧
      Query.read? .sqlite (({ orders with filter := some e } : Query).render .sqlite) =
        some { orders with filter := some r } := by
  refine ⟨(alike_iff_fits_of_readsAs .generic).1 _ filled_bareComparison, ?_⟩
  have hcode : (openOrders[0]).Fits .sqlite :=
    .operation (.inl (by decide)) (.column _ _) (by decide)
      (.operation (.inr rfl) (.string _) (by decide)
        (.operation (.inr rfl) (.column _ _) (by decide) (.string _) (by decide)) (by decide))
      (by decide)
  have hregion : (openOrders[1]).Fits .sqlite :=
    .isIn true (.column _ _) (by decide) (List.forall_mem_cons.mpr
      ⟨.string "north", List.forall_mem_singleton.mpr (.string "south")⟩)
  have hfits : ∀ f ∈ openOrders, f.Fits .sqlite :=
    List.forall_mem_cons.mpr ⟨hcode, List.forall_mem_singleton.mpr hregion⟩
  have hreadable : orders.Readable .sqlite :=
    ⟨by decide, List.forall_mem_singleton.mpr ⟨.column _ _, rfl⟩, ⟨_, rfl, rfl⟩, by simp [orders],
      by simp [orders]⟩
  obtain ⟨hfilters, hread⟩ :=
    (alike_iff_fits_of_readsAs .sqlite).2 orders openOrders rfl fun f hf => (hfits f hf).filled
  obtain ⟨_, r, hr, _, halike, htext⟩ := hread _ rfl
  exact ⟨_, r, hfilters, hr, halike.mpr hfits, (htext hreadable).1⟩

/-- The comparison is read as one of the second conjunct only. -/
theorem not_forall_exists_alike :
    ¬ ∀ (d : Dialect) (e : Expr), e.Filled → ∃ r, e.ReadsAs d r ∧ r.Alike e := by
  intro h
  obtain ⟨r, hr, halike⟩ := h .generic bareComparison filled_bareComparison
  have hplain := halike.plain_eq
  have hread : plain (regroup .generic bareComparison) =
      binary .and (column none "a") (binary .eq (column none "b") (column none "c")) := rfl
  rw [hr.eq_regroup filled_bareComparison, hread] at hplain
  exact Expr.noConfusion hplain fun hop => BinaryOp.noConfusion hop

end Expr

end Joinery
