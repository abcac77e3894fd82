import Joinery.Compiler
import Joinery.Proofs.Graph.Coherence
import Joinery.Proofs.Sql.Statements

/-!
# Rendering loses nothing

The text of a compiled query is read back as that query, in every dialect and in either layout,
and so no two compiled queries share a text.

Operators are written without parentheses, so this rests on what a compiled query puts together.
Its predicates compare columns, with a concatenation at most on the right, and hold together
more tightly than the conjunction that they stand in (`grouped_predicate`). A conjunction grows
on its left (`grouped_of_all?`). Columns, outputs and tables have all of their names. What these
names are does not matter.

This is about `Compiler.compileWith` with `Query.render` and `Query.renderCompact`.
-/

namespace Joinery

namespace Expr

variable {d : Dialect}

/-- A comparison of expressions that hold together more tightly than it. -/
theorem grouped_comparison {op : BinaryOp} (h : op.strength = 2) {left right : Expr}
    (hleft : left.Grouped d) (hl : 2 ≤ left.strength d)
    (hright : right.Grouped d) (hr : 2 < right.strength d) :
    (binary op left right).Grouped d ∧ 2 ≤ (binary op left right).strength d := by
  have hop : op ≠ .concat := by
    intro heq
    rw [heq] at h
    exact absurd h (by decide)
  rw [← h] at hl hr ⊢
  exact ⟨.operation (.inl hop) hleft hl hright hr,
    Nat.le_of_eq (strength_operation (.inl hop) left right).symm⟩

/-- Every comparison of two columns groups as it is written, and binds tighter than AND. -/
theorem grouped_predicate (form : NotEqualsForm) (c : Comparison) (t u : Option String)
    (x y : String) :
    (c.predicate form (.column t x) (.column u y)).Grouped d ∧
      2 ≤ (c.predicate form (.column t x) (.column u y)).strength d := by
  have hleft : (column t x).Grouped d := .column t x
  have hright : (column u y).Grouped d := .column u y
  have hl : 2 ≤ (column t x).strength d := Nat.le_of_ble_eq_true rfl
  have hr : 3 < (column u y).strength d := Nat.le_refl 4
  cases c with
  | equals => exact grouped_comparison rfl hleft hl hright (Nat.lt_of_succ_lt hr)
  | notEquals =>
    cases form with
    | negated => exact grouped_comparison rfl hleft hl hright (Nat.lt_of_succ_lt hr)
    | legacy => exact grouped_comparison rfl hleft hl hright (Nat.lt_of_succ_lt hr)
  | like =>
    have hwildcard : (string "%").Grouped d := .string "%"
    have hbefore := hwildcard.concat (Nat.le_succ 3) hright hr
    have hpattern := hbefore.concat (strength_concat _ _) hwildcard (Nat.le_refl 4)
    exact grouped_comparison rfl hleft hl hpattern (strength_concat _ _)
  | isIn =>
    refine ⟨.isIn false hleft hl ?_, Nat.le_refl 2⟩
    intro m hm
    rw [List.mem_singleton.mp hm]
    exact hright

/-- A conjunction read from the left groups its conjuncts, if each holds together more tightly. -/
theorem grouped_foldl {es : List Expr} (hes : ∀ p ∈ es, p.Grouped d ∧ 2 ≤ p.strength d) {e : Expr}
    (he : e.Grouped d) (hstrength : 1 ≤ e.strength d) :
    (es.foldl (binary .and) e).Grouped d := by
  induction es generalizing e with
  | nil => exact he
  | cons p es ih =>
    obtain ⟨hp, hpstrength⟩ := hes p (List.mem_cons_self ..)
    refine ih (fun q hq => hes q (List.mem_cons_of_mem _ hq)) ?_ ?_
    · exact .operation (.inl (by simp)) he hstrength hp hpstrength
    · rw [strength_operation (.inl (by simp))]
      exact Nat.le_refl 1

/-- A conjunction of expressions that bind tighter than AND groups as it is written. -/
theorem grouped_of_all? {es : List Expr} {e : Expr} (h : all? es = some e)
    (hes : ∀ p ∈ es, p.Grouped d ∧ 2 ≤ p.strength d) : e.Grouped d := by
  cases es with
  | nil => exact absurd h (by simp [all?])
  | cons first rest =>
    obtain ⟨hfirst, hstrength⟩ := hes first (List.mem_cons_self ..)
    rw [← Option.some.inj h]
    exact grouped_foldl (fun p hp => hes p (List.mem_cons_of_mem _ hp)) hfirst
      (Nat.le_of_succ_le hstrength)

end Expr

namespace Compiler

/-- The condition of a reference groups as it is written. -/
theorem grouped_condition {c : Compiler} {g : JoinGraph} {l : Link} {e : Expr}
    (h : c.condition g l = some e) (d : Dialect) : e.Grouped d := by
  unfold condition at h
  split at h
  next =>
    obtain ⟨inner, hinner, rfl⟩ := Option.map_eq_some_iff.mp h
    refine .paren (Expr.grouped_of_all? hinner ?_)
    intro p hp
    obtain ⟨r, _, hr⟩ := List.mem_filterMap.mp hp
    unfold predicate? columnExpr? at hr
    cases hnear : g.node? r.localSide.node with
    | none =>
      rw [hnear] at hr
      exact absurd hr (by simp)
    | some near =>
      cases hfar : g.node? r.remoteSide.node with
      | none =>
        rw [hnear, hfar] at hr
        exact absurd hr (by simp)
      | some far =>
        rw [hnear, hfar] at hr
        rw [← Option.some.inj hr]
        exact Expr.grouped_predicate ..
  next => exact absurd h (by simp)

/-- What a graph compiles to has the form of queries that are read back. -/
theorem readable_of_compileWith {c : Compiler} {g : JoinGraph} {p : Projection} {q : Query}
    (h : c.compileWith g p = .ok q) (d : Dialect) : q.Readable d := by
  obtain ⟨hp, _, rfl⟩ := compileWith_eq_ok_iff.mp h
  constructor
  · intro hnil
    rw [Registry.isEmpty, List.isEmpty_eq_false_iff] at hp
    exact hp (List.map_eq_nil_iff.mp (List.map_eq_nil_iff.mp hnil))
  · intro item hitem
    obtain ⟨column, _, rfl⟩ := List.mem_map.mp hitem
    exact ⟨.column _ _, rfl⟩
  · exact ⟨tableRef g.rootNode, rfl, rfl⟩
  · intro j hj
    obtain ⟨l, _, rfl⟩ := List.mem_map.mp hj
    exact ⟨rfl, fun e he => grouped_condition he d⟩
  · exact fun e he => absurd he (by simp [queryOf])

/-- In whichever dialect and layout a compiled query is rendered, its text is read back as the
query, and no other compiled query has that text. -/
theorem lossless_of_compile {c : Compiler} {g : JoinGraph} {q : Query} (h : c.compile g = .ok q)
    (r : Compiler) :
    Query.read? r.dialect (r.render q) = some q ∧
    ∀ c' g' q', Compiler.compile c' g' = .ok q' → r.render q' = r.render q → q' = q := by
  have hread {c : Compiler} {g : JoinGraph} {q : Query} (h : c.compile g = .ok q) :
      Query.read? r.dialect (r.render q) = some q := by
    have hreadable := readable_of_compileWith h r.dialect
    unfold render renderTokens
    split
    next => exact Query.read?_render hreadable
    next => exact Query.read?_renderCompact hreadable
  refine ⟨hread h, ?_⟩
  intro c' g' q' h' htext
  have hq := hread h'
  rw [htext, hread h] at hq
  exact (Option.some.inj hq).symm

end Compiler

namespace Warehouse

/-- The graph has a pattern match, which this dialect writes with nested calls. -/
theorem read?_graph :
    ∃ q, Compiler.compile {} graph = .ok q ∧
      Query.read? .mysql (Compiler.render { dialect := .mysql, pretty := false } q) = some q := by
  have hok : (Compiler.compile {} graph).isOk = true := by decide +kernel
  obtain ⟨q, hq⟩ := exists_of_isOk hok
  exact ⟨q, hq, (Compiler.lossless_of_compile hq { dialect := .mysql, pretty := false }).1⟩

end Warehouse

end Joinery
