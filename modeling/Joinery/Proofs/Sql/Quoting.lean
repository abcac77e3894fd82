import Joinery.Proofs.Sql.Reading

/-!
# Names and strings in front of more text

A name or a string stands at the beginning of what is left of a statement, and both what it is and
where it ends can be told from that text alone, whatever the name or the string holds: delimiters,
dots, nothing at all, or a text that looks quoted already (`Dialect.selfDelimiting_quoting`).

What follows must not go on with it. A delimited name would go on with its closing delimiter, a
bare one with a letter, a digit or an underscore, the name of a table or view with a dot, and a
string with a quote. Under these conditions each is read back by the rules for lexemes, of which
one is that a doubled quote is the only escape in a string. What can be read back in front of
anything is not written twice (`SelfDelimiting.of_read`).

What is read back has been written by `Dialect.quoteIdentifier`, `Dialect.quoteString` and the
token of a table's name.
-/

namespace Joinery

/-- Written in front of a text that ends it, a value is read back together with that text, and so no
two values come out the same, whatever text is behind them. -/
structure SelfDelimiting {α : Type} (read : List Char → Option (α × List Char))
    (write : α → String) (Ends : List Char → Prop) : Prop where
  read_append : ∀ (a : α) (after : String), Ends after.toList →
    read (write a ++ after).toList = some (a, after.toList)
  append_inj : ∀ (a b : α) (after others : String), Ends after.toList → Ends others.toList →
    write a ++ after = write b ++ others → a = b ∧ after = others

/-- What can be read back whatever follows delimits itself. -/
theorem SelfDelimiting.of_read {α : Type} {read : List Char → Option (α × List Char)}
    {write : α → String} {Ends : List Char → Prop}
    (h : ∀ (a : α) (after : List Char), Ends after →
      read ((write a).toList ++ after) = some (a, after)) : SelfDelimiting read write Ends := by
  have hread (a : α) (after : String) (hafter : Ends after.toList) :
      read (write a ++ after).toList = some (a, after.toList) := by
    rw [String.toList_append]
    exact h a after.toList hafter
  refine ⟨hread, fun a b after others hafter hothers heq => ?_⟩
  have hsame : some (a, after.toList) = some (b, others.toList) := by
    rw [← hread a after hafter, ← hread b others hothers, heq]
  obtain ⟨hvalue, htext⟩ := Prod.mk.inj (Option.some.inj hsame)
  exact ⟨hvalue, String.toList_inj.mp htext⟩

namespace Dialect

/-! ## Names -/

/-- The name that a text begins with, bare or delimited, and what follows it. -/
def name? (d : Dialect) (text : List Char) : Option (String × List Char) := do
  let (l, after) ← lexeme? d text
  let name ← l.identifier?
  return (name, after)

/-- The name of a table or view that a text begins with, and what follows it. In front of a dot and
a further name the first is the schema. -/
def objectName? (d : Dialect) (text : List Char) : Option (ObjectName × List Char) := do
  let (first, rest) ← d.name? text
  match rest with
  | '.' :: rest =>
    let (name, after) ← d.name? rest
    return (⟨some first, name⟩, after)
  | after => return (⟨none, first⟩, after)

theorem name?_identifierChars {d : Dialect} {after : List Char} (hafter : d.EndsName after)
    (name : String) : d.name? (d.identifierChars name.toList ++ after) = some (name, after) := by
  rw [name?, lexeme?_identifier hafter]
  show (d.identifierLexeme name.toList).identifier?.bind _ = _
  rw [d.identifier?_identifierLexeme]
  rfl

/-- A name without a dot after it is an unqualified one. -/
theorem objectName?_of_name? {d : Dialect} {text after : List Char} {name : String}
    (h : d.name? text = some (name, after)) (hdot : ∀ c ∈ after.head?, c ≠ '.') :
    d.objectName? text = some (⟨none, name⟩, after) := by
  rw [objectName?, h]
  cases after with
  | nil => rfl
  | cons c after =>
    have hc : c ≠ '.' := hdot c rfl
    simp [hc]

/-- A name, a dot and a name are a qualified one. -/
theorem objectName?_of_schema {d : Dialect} {text rest after : List Char} {schema name : String}
    (hschema : d.name? text = some (schema, '.' :: rest)) (hname : d.name? rest = some (name, after)) :
    d.objectName? text = some (⟨some schema, name⟩, after) := by
  rw [objectName?, hschema]
  show (d.name? rest).bind _ = _
  rw [hname]
  rfl

/-- A dot ends every name, and so the schema is read in front of it. -/
theorem objectName?_qualified {d : Dialect} {after : List Char} (hafter : d.EndsName after)
    (hdot : ∀ c ∈ after.head?, c ≠ '.') (n : ObjectName) :
    d.objectName? ((Token.qualified n).chars d ++ after) = some (n, after) := by
  obtain ⟨schema, name⟩ := n
  have hname := name?_identifierChars hafter name
  cases schema with
  | none => exact objectName?_of_name? hname hdot
  | some schema =>
    have hends : d.EndsName ('.' :: (d.identifierChars name.toList ++ after)) :=
      (Parted.cons (by decide) _).endsName d
    rw [Token.chars, List.append_assoc, List.cons_append]
    exact objectName?_of_schema (name?_identifierChars hends schema) hname

/-! ## Strings -/

/-- The value of the string literal that a text begins with, where a doubled quote is the only
escape, and what follows it. -/
def string? (d : Dialect) (text : List Char) : Option (String × List Char) := do
  match ← lexeme? d text with
  | (.literal _ value, after) => return (String.ofList value, after)
  | _ => none

theorem string?_stringChars {d : Dialect} {after : List Char} (hafter : ∀ c ∈ after.head?, c ≠ '\'')
    (text : String) : d.string? (d.stringChars text.toList ++ after) = some (text, after) := by
  rw [string?, lexeme?_string d text.toList hafter]
  exact congrArg (fun value => some (value, after)) String.ofList_toList

/-- In every dialect names, names of tables and views, and strings are read back from what they are
written as, and no two of a kind are written the same: neither alone nor with whatever else behind
them, if it does not go on with them. -/
theorem selfDelimiting_quoting (d : Dialect) :
    SelfDelimiting d.name? d.quoteIdentifier d.EndsName ∧
    SelfDelimiting d.objectName? (fun n => (Token.qualified n).render d)
      (fun after => d.EndsName after ∧ ∀ c ∈ after.head?, c ≠ '.') ∧
    SelfDelimiting d.string? d.quoteString (fun after => ∀ c ∈ after.head?, c ≠ '\'') := by
  refine ⟨.of_read fun name after hafter => ?_, .of_read fun n after hafter => ?_,
    .of_read fun text after hafter => ?_⟩
  · rw [quoteIdentifier, String.toList_ofList]
    exact name?_identifierChars hafter name
  · rw [Token.render, String.toList_ofList]
    exact objectName?_qualified hafter.1 hafter.2 n
  · rw [quoteString, String.toList_ofList]
    exact string?_stringChars hafter text

/-- A name that holds the delimiter and more of a statement, a name that holds the dot between two
names, and a literal marked as national, in front of more text. -/
theorem selfDelimiting_quoting_impostors :
    postgres.EndsName " FROM t".toList ∧
    postgres.name? (postgres.quoteIdentifier "id\" AS \"x" ++ " FROM t").toList =
      some ("id\" AS \"x", " FROM t".toList) ∧
    postgres.EndsName " AS \"x\" FROM t".toList ∧
    postgres.quoteIdentifier "id\" AS \"x" ++ " FROM t" ≠
      postgres.quoteIdentifier "id" ++ " AS \"x\" FROM t" ∧
    (Token.qualified ⟨none, "a].[b"⟩).render tsql ≠ (Token.qualified ⟨some "a", "b"⟩).render tsql ∧
    tsql.string? (tsql.quoteString "é' OR 'é" ++ " OR 'é'").toList =
      some ("é' OR 'é", " OR 'é'".toList) := by
  have hfrom : postgres.EndsName " FROM t".toList :=
    (Parted.cons (by decide) "FROM t".toList).endsName postgres
  have has : postgres.EndsName " AS \"x\" FROM t".toList :=
    (Parted.cons (by decide) "AS \"x\" FROM t".toList).endsName postgres
  have hend : tsql.EndsName "".toList ∧ ∀ c ∈ "".toList.head?, c ≠ '.' :=
    ⟨Parted.nil.endsName tsql, fun _ hc => nomatch hc⟩
  have hor : ∀ c ∈ " OR 'é'".toList.head?, c ≠ '\'' :=
    (Parted.cons (by decide) "OR 'é'".toList).head_ne (by decide)
  obtain ⟨hnames, _, _⟩ := selfDelimiting_quoting postgres
  obtain ⟨_, hobjects, hstrings⟩ := selfDelimiting_quoting tsql
  refine ⟨hfrom, hnames.read_append _ _ hfrom, has, ?_, ?_, hstrings.read_append _ _ hor⟩
  · intro heq
    exact absurd (hnames.append_inj _ _ _ _ hfrom has heq).1 (by decide)
  · intro heq
    exact absurd (hobjects.append_inj _ _ "" "" hend hend (congrArg (· ++ "") heq)).1 (by decide)

end Dialect

end Joinery
