import Joinery.Text.Identifier

/-!
# Table aliases

Every table in a query gets an alias of its own: a prefix for its role, a number that
is never used twice, and what is left of the table's name when all that cannot stand
in an identifier is replaced by an underscore.

This is the alias allocator: `next` is its `next_alias` and `identifierSafe` its
`sanitize`. The allocator counts with 64 bits; `issued` has no bound, and is the same
number for the first 2^64 requests.
-/

namespace Joinery

/-- Where in a query a table stands. -/
inductive Role
  | root
  | joined
  deriving DecidableEq, Repr

/-- Issues table aliases, each with the next number. The number has no bound here: a counter of 64
bits agrees with it for the first 2^64 requests, and nothing is said of any after these. -/
structure AliasIssuer where
  rootPrefix : String
  joinPrefix : String
  issued : Nat
  deriving DecidableEq, Repr

/-- A table name with every character that cannot stand in an identifier replaced. -/
def identifierSafe (table : List Char) : List Char :=
  table.map fun c => if Text.isIdentifierPart c then c else '_'

namespace AliasIssuer

/-- An issuer with these prefixes that has issued nothing yet. -/
def withPrefixes (rootPrefix joinPrefix : String) : AliasIssuer :=
  { rootPrefix, joinPrefix, issued := 0 }

/-- The issuer with the prefixes that apply where nothing else is configured. -/
def standard : AliasIssuer :=
  withPrefixes "t" "j"

/-- The prefix of a role: an alias tells by its start whether its table is the root. -/
def prefixOf (a : AliasIssuer) : Role → String
  | .root => a.rootPrefix
  | .joined => a.joinPrefix

/-- The text of an alias: prefix, number, underscore and what is left of the table's name. -/
def aliasChars (start : List Char) (number : Nat) (table : List Char) : List Char :=
  start ++ Nat.toDigits 10 number ++ '_' :: identifierSafe table

/-- The next alias, and the issuer that has issued it. -/
def next (a : AliasIssuer) (table : String) (role : Role) : String × AliasIssuer :=
  let number := a.issued + 1
  (String.ofList (aliasChars (a.prefixOf role).toList number table.toList),
    { a with issued := number })

/-- Every request takes a number, so none is ever given out twice. -/
@[simp] theorem issued_next (a : AliasIssuer) (table : String) (role : Role) :
    (a.next table role).2.issued = a.issued + 1 := rfl

@[simp] theorem prefixOf_next (a : AliasIssuer) (table : String) (role other : Role) :
    (a.next table role).2.prefixOf other = a.prefixOf other := by
  cases other <;> rfl

end AliasIssuer

/-- What is left of a table name can stand in an identifier. -/
theorem all_identifierSafe (table : List Char) :
    (identifierSafe table).all Text.isIdentifierPart := by
  rw [List.all_eq_true]
  intro c hc
  obtain ⟨d, _, rfl⟩ := List.mem_map.1 hc
  split
  · next h => exact h
  · rfl

end Joinery
