import Joinery.Toml.Number

/-!
# TOML values and tables

A document is a table of values. It is written as statements that each add to the table
in one place, and the same place must not be defined twice. How a table came about
settles what may still be added to it.

* A table with a header of its own is complete where its header ends.
* A table that only stands on the way to another header can still get its own header.
* A table made by dotted keys can get further dotted keys, in the same section.
* A table in braces is closed for good.

The tables under a repeated header are reached through the last of them.
-/

namespace Joinery.Toml

/-- How a table has come about, which decides what may be added to it. -/
inductive Origin
  | header
  | implied
  | dotted
  | inline
  deriving DecidableEq, Repr

/-- A value of a document. A date or time keeps its text. -/
inductive Value
  | string (value : String)
  | number (value : Number)
  | boolean (value : Bool)
  | dateTime (text : String)
  | array (items : List Value)
  -- the tables under one repeated header
  | tables (items : List (Origin × List (String × Value)))
  | table (origin : Origin) (entries : List (String × Value))
  deriving Repr, Inhabited

/-- Keys with their values, in the order in which they appear. -/
abbrev Entries := List (String × Value)

abbrev Table := Origin × Entries

mutual

/-- Whether every number in a value can be represented. -/
def Value.isRepresentable : Value → Bool
  | .number n => n.isRepresentable
  | .array items => Value.areRepresentable items
  | .tables items => Table.areRepresentable items
  | .table _ entries => Entries.areRepresentable entries
  | .string _ => true
  | .boolean _ => true
  | .dateTime _ => true

def Value.areRepresentable : List Value → Bool
  | [] => true
  | v :: rest => v.isRepresentable && Value.areRepresentable rest

def Entries.areRepresentable : List (String × Value) → Bool
  | [] => true
  | (_, v) :: rest => v.isRepresentable && Entries.areRepresentable rest

def Table.areRepresentable : List (Origin × List (String × Value)) → Bool
  | [] => true
  | (_, entries) :: rest => Entries.areRepresentable entries && Table.areRepresentable rest

end

/-- Entries with a value put under a key, in place of one that may be there. -/
def Entries.put (key : String) (value : Value) : Entries → Entries
  | [] => [(key, value)]
  | (k, v) :: rest => if k = key then (key, value) :: rest else (k, v) :: Entries.put key value rest

/-- Whether a dotted key may pass through a table. -/
def Origin.takesDotted : Origin → Bool
  | implied | dotted => true
  | header | inline => false

namespace Table

/-- A table as a path makes it on its way. -/
def fresh (dotted : Bool) : Table :=
  (if dotted then .dotted else .implied, [])

/-- Changes the table at the end of a path from a table. A header passes through any table that
is not in braces, a dotted key only through tables that have no header; both pass through the
last of the tables under a repeated header. What is not there yet is made. -/
def changeAt (dotted : Bool) (change : Table → Option Table) :
    List String → Table → Option Table
  | [], t => change t
  | key :: path, (origin, entries) =>
    match entries.lookup key with
    | none => do
      let (o, es) ← changeAt dotted change path (fresh dotted)
      return (origin, Entries.put key (.table o es) entries)
    | some (.table o es) =>
      if o = .inline || (dotted && !o.takesDotted) then none
      else do
        let (o, es) ← changeAt dotted change path (o, es)
        return (origin, Entries.put key (.table o es) entries)
    | some (.tables items) =>
      match items.getLast? with
      | some last => do
        let last ← changeAt dotted change path last
        return (origin, Entries.put key (.tables (items.dropLast ++ [last])) entries)
      | none => none
    | some _ => none

/-- Gives a key its value, unless it has one already. -/
def define (key : String) (value : Value) (t : Table) : Option Table :=
  match t.2.lookup key with
  | some _ => none
  | none => some (t.1, t.2 ++ [(key, value)])

/-- Assigns a value to a key of the table, or to a dotted key: a path and a key at its end. A
path ends in a table made by dotted keys. -/
def assign (path : List String) (key : String) (value : Value) (t : Table) : Option Table :=
  changeAt true
    (fun t => if !path.isEmpty && t.1 ≠ .dotted then none else define key value t) path t

/-- Starts the table of a header, which may have been implied before but not defined. -/
def openHeader (path : List String) (key : String) : Table → Option Table :=
  changeAt false
    (fun (origin, entries) =>
      match entries.lookup key with
      | none => some (origin, entries ++ [(key, .table .header [])])
      | some (.table .implied es) => some (origin, Entries.put key (.table .header es) entries)
      | some _ => none)
    path

/-- Starts the next table under a repeated header. -/
def openElement (path : List String) (key : String) : Table → Option Table :=
  changeAt false
    (fun (origin, entries) =>
      match entries.lookup key with
      | none => some (origin, entries ++ [(key, .tables [(.header, [])])])
      | some (.tables items) =>
        some (origin, Entries.put key (.tables (items ++ [(.header, [])])) entries)
      | some _ => none)
    path

end Table

/-- One statement of a document. A path stands before the last key. -/
inductive Statement
  | header (path : List String) (key : String)
  | element (path : List String) (key : String)
  | assignment (path : List String) (key : String) (value : Value)
  deriving Repr

/-- A document under way: all of it, and the path of the section that assignments go to. -/
structure Draft where
  root : Table
  place : List String

namespace Draft

/-- A document of which nothing has been read. -/
def empty : Draft :=
  ⟨(.header, []), []⟩

/-- The document after one more statement, unless that defines a place again. -/
def add (d : Draft) : Statement → Option Draft
  | .header path key => do
    let root ← d.root.openHeader path key
    return ⟨root, path ++ [key]⟩
  | .element path key => do
    let root ← d.root.openElement path key
    return ⟨root, path ++ [key]⟩
  | .assignment path key value => do
    let root ← d.root.changeAt false (Table.assign path key value) d.place
    return ⟨root, d.place⟩

end Draft

/-- The entries that statements leave behind, if none of them contradicts another. -/
def entriesOf? (statements : List Statement) : Option Entries :=
  (statements.foldlM Draft.add .empty).map (·.root.2)

end Joinery.Toml
