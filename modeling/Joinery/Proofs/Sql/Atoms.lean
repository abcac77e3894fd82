import Joinery.Restriction
import Joinery.Sql.Query

/-!
# What an expression is made of

The atoms of an expression are the columns and literals in it, wherever they stand; the
conjuncts are what an `AND` chain joins. A condition is built the other way round, from
predicates to their conjunction, and the theorems here take it apart again: the conjuncts
of a conjunction are the predicates it was made from (`conjuncts_of_all?`), its atoms are
theirs (`atoms_eq_flatMap_conjuncts`), and a predicate speaks of its two columns and, if it is a pattern
match, of two wildcards (`columns_predicate`, `literals_predicate`).
-/

namespace Joinery

namespace Expr

mutual
/-- The columns and literals of an expression, from left to right. -/
def atoms : Expr → List Expr
  | column table name => [column table name]
  | string value => [string value]
  | binary _ left right => atoms left ++ atoms right
  | isIn subject members _ => atoms subject ++ atomsOf members
  | paren inner => atoms inner

/-- The atoms of a list of expressions. -/
def atomsOf : List Expr → List Expr
  | [] => []
  | e :: rest => atoms e ++ atomsOf rest
end

/-- The columns of an expression, each with the table it is read from. -/
def columns (e : Expr) : List (Option String × String) :=
  e.atoms.filterMap fun a =>
    match a with
    | column table name => some (table, name)
    | _ => none

/-- The string literals in an expression. -/
def literals (e : Expr) : List String :=
  e.atoms.filterMap fun a =>
    match a with
    | string value => some value
    | _ => none

/-- Whether an expression is a conjunction. -/
def isConjunction : Expr → Bool
  | binary .and _ _ => true
  | _ => false

/-- What a chain of conjunctions, read from the left, joins. -/
def conjuncts : Expr → List Expr
  | binary .and left right => conjuncts left ++ [right]
  | e => [e]

/-- The atoms of an expression are those of its conjuncts. -/
theorem atoms_eq_flatMap_conjuncts (e : Expr) : e.atoms = e.conjuncts.flatMap atoms := by
  induction e using conjuncts.induct with
  | case1 left right ih =>
    rw [atoms, conjuncts, List.flatMap_append, ← ih, List.flatMap_singleton]
  | case2 e hno =>
    rw [conjuncts, List.flatMap_singleton]
    exact hno

/-- The columns of an expression are those of its conjuncts. -/
theorem columns_eq_flatMap_conjuncts (e : Expr) : e.columns = e.conjuncts.flatMap columns := by
  rw [columns, atoms_eq_flatMap_conjuncts, List.filterMap_flatMap]
  rfl

/-- The literals of an expression are those of its conjuncts. -/
theorem literals_eq_flatMap_conjuncts (e : Expr) : e.literals = e.conjuncts.flatMap literals := by
  rw [literals, atoms_eq_flatMap_conjuncts, List.filterMap_flatMap]
  rfl

/-- What is no conjunction is its own only conjunct. -/
theorem conjuncts_of_not_isConjunction {e : Expr} (h : e.isConjunction = false) :
    e.conjuncts = [e] := by
  unfold conjuncts
  split
  next left right => exact absurd h (by simp [isConjunction])
  next => rfl

/-- A conjunction built from the left has the conjuncts in order. -/
theorem conjuncts_foldl (es : List Expr) (e : Expr) :
    (es.foldl (binary .and) e).conjuncts = e.conjuncts ++ es := by
  induction es generalizing e with
  | nil => rw [List.foldl_nil, List.append_nil]
  | cons first rest ih =>
    rw [List.foldl_cons, ih, conjuncts, List.append_assoc]
    rfl

/-- A conjunction of expressions that are none themselves falls apart into them. -/
theorem conjuncts_of_all? {es : List Expr} {e : Expr} (h : all? es = some e)
    (hno : ∀ p ∈ es, p.isConjunction = false) : e.conjuncts = es := by
  cases es with
  | nil => exact absurd h (by simp [all?])
  | cons first rest =>
    rw [← Option.some.inj h, conjuncts_foldl,
      conjuncts_of_not_isConjunction (hno first (List.mem_cons_self ..))]
    rfl

/-- There is no conjunction of nothing, and of nothing else is there none. -/
theorem all?_eq_none_iff {es : List Expr} : all? es = none ↔ es = [] := by
  cases es with
  | nil => exact iff_of_true rfl rfl
  | cons first rest => exact iff_of_false (by simp [all?]) (by simp)

end Expr

/-! ## Predicates -/

theorem isConjunction_predicate (form : NotEqualsForm) (c : Comparison) (left right : Expr) :
    (c.predicate form left right).isConjunction = false := by
  cases c with
  | notEquals =>
    cases form with
    | negated => rfl
    | legacy => rfl
  | equals => rfl
  | like => rfl
  | isIn => rfl

/-- A comparison of two columns speaks of these two. -/
theorem columns_predicate (form : NotEqualsForm) (c : Comparison) (t u : Option String)
    (x y : String) :
    (c.predicate form (.column t x) (.column u y)).columns = [(t, x), (u, y)] := by
  cases c with
  | notEquals =>
    cases form with
    | negated => rfl
    | legacy => rfl
  | equals => rfl
  | like => rfl
  | isIn => rfl

/-- The only literals of a predicate over two columns are the wildcards of a pattern match. -/
theorem literals_predicate (form : NotEqualsForm) (c : Comparison) (t u : Option String)
    (x y : String) :
    (c.predicate form (.column t x) (.column u y)).literals =
      if c = .like then ["%", "%"] else [] := by
  cases c with
  | notEquals =>
    cases form with
    | negated => rfl
    | legacy => rfl
  | equals => rfl
  | like => rfl
  | isIn => rfl

/-! ## Queries -/

namespace Query

/-- The string literals anywhere in a query. -/
def literals (q : Query) : List String :=
  q.select.flatMap (·.expr.literals) ++
    q.joins.flatMap (fun j => (j.condition.map Expr.literals).getD []) ++
    (q.filter.map Expr.literals).getD []

/-- The tables a query introduces, in the order in which it does. -/
def tables (q : Query) : List TableRef :=
  q.source.toList ++ q.joins.map (·.table)

/-- The aliases of all tables of a query. -/
def tableAliases (q : Query) : List (Option String) :=
  q.tables.map (·.tableAlias)

end Query

end Joinery
