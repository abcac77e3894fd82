import Joinery.Sql.Token

/-!
# Expressions

What join conditions and filters are made of: columns, string literals, comparison,
pattern match, concatenation, membership, conjunction and parentheses.

`Expr.tokens` lays an expression out for a dialect. Two rules of it are not plain
reading off: where the dialect has no concatenation operator, a concatenation is a
call of `CONCAT`; and membership in an empty list, which no dialect can write, is the
comparison of 1 with 1 that has the same truth value.

`Expr.tokens` is `to_tokens_for_dialect`, and `Expr.all?` is `and_all`.
-/

namespace Joinery

/-- Operators between two expressions. -/
inductive BinaryOp
  | eq
  | ne
  | and
  | concat
  | like
  deriving DecidableEq, Repr

/-- The token that stands for an operator. -/
def BinaryOp.token : BinaryOp → Token
  | eq => .equal
  | ne => .notEqual
  | and => .keyword .AND
  | concat => .concat
  | like => .keyword .LIKE

/-- An expression of a join condition, a filter or a select list. -/
inductive Expr
  -- a column, with the table or alias it is read from when one is given
  | column (table : Option String) (name : String)
  | string (value : String)
  | binary (op : BinaryOp) (left right : Expr)
  | isIn (subject : Expr) (members : List Expr) (negated : Bool)
  | paren (inner : Expr)
  deriving BEq, Repr

namespace Expr

/-- A conjunction, read from the left; `none` for no conjuncts. -/
def all? : List Expr → Option Expr
  | [] => none
  | e :: rest => some (rest.foldl (binary .and) e)

/-- Whether an expression is a concatenation. -/
def isConcat : Expr → Bool
  | binary .concat _ _ => true
  | _ => false

/-- Membership in no list at all: never true, so its negation always is. -/
def emptyMembership (negated : Bool) : Tokens :=
  [.integer 1, .space, if negated then .equal else .notEqual, .space, .integer 1]

mutual
/-- An expression as tokens of a dialect. -/
def tokens (d : Dialect) : Expr → Tokens
  | column none name => [.identifier name]
  | column (some table) name => [.identifier table, .dot, .identifier name]
  | string value => [.string value]
  | binary op left right =>
    if op = .concat ∧ ¬ d.hasConcatOperator then
      [.function "CONCAT", .openParen] ++ tokens d left ++ [.comma, .space] ++ tokens d right
        ++ [.closeParen]
    else tokens d left ++ [.space, op.token, .space] ++ tokens d right
  | isIn _ [] negated => emptyMembership negated
  | isIn subject (first :: others) negated =>
    tokens d subject ++ (if negated then [.space, .keyword .NOT] else [])
      ++ [.space, .keyword .IN, .space, .openParen] ++ tokens d first ++ tokensAfterComma d others
      ++ [.closeParen]
  | paren inner => .openParen :: tokens d inner ++ [.closeParen]

/-- Expressions as tokens, each with a comma before it. -/
def tokensAfterComma (d : Dialect) : List Expr → Tokens
  | [] => []
  | e :: rest => [.comma, .space] ++ tokens d e ++ tokensAfterComma d rest
end

def render (d : Dialect) (e : Expr) : String :=
  (e.tokens d).render d

end Expr

end Joinery
