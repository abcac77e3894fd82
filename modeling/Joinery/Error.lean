import Joinery.Entity
import Joinery.Sql.JoinKind
import Joinery.Text.Quoted

/-!
# What can go wrong

One type of error for each of the three things a user does: declaring a graph or view,
compiling it, and reading related records from a row. An error says what was wrong in
terms of what the user gave; `message` is the one place where it is put into words.

`message` is what is displayed for the errors of configuration, compilation and
loading.
-/

namespace Joinery

/-- What is wrong with a declaration. -/
inductive DeclarationError
  | invalidEntity (entity : String) (defect : Defect)
  | unknownJoinKind (text : String)
  | unknownQualifier (qualifier column : String)
  | unknownColumn (table column : String)
  | ambiguousColumn (column : String) (candidates : List String)
  | selfRestriction (localSide remoteSide tableAlias : String)
  | duplicateRelation (name : String)
  | missingRestrictions (kind : JoinKind) (table : String)
  | unknownParent
  deriving DecidableEq, Repr

/-- What keeps a graph from being compiled. -/
inductive CompileError
  | emptyProjection (table : String)
  | unsupportedJoin (dialect : Dialect) (kind : JoinKind) (table : String)
  deriving DecidableEq, Repr

/-- What keeps a related record from being loaded. -/
inductive ViewError
  | unknownRelation (view relation : String)
  | missingValue (relation column : String)
  deriving DecidableEq, Repr

/-- What a defect is called inside the message about its entity. -/
def Defect.message : Defect → String
  | blankTable => "table name is empty"
  | noColumns => "no columns"
  | keyOutsideColumns column => s!"primary key column {Text.quoted column} is not a column"
  | blankViewName => "view name is empty"

/-- The message for each way in which a declaration is wrong, with the names as they were given. -/
def DeclarationError.message : DeclarationError → String
  | invalidEntity entity defect => s!"invalid entity {Text.quoted entity}: {defect.message}"
  | unknownJoinKind text => s!"unrecognized join type keyword: {Text.quoted text}"
  | unknownQualifier qualifier column =>
    s!"unknown qualifier {Text.quoted qualifier} in column {Text.quoted column}"
  | unknownColumn table column => s!"unknown column {Text.quoted column} on {table}"
  | ambiguousColumn column candidates =>
    s!"column {Text.quoted column} is ambiguous between {Text.quotedList candidates}"
  | selfRestriction localSide remoteSide tableAlias =>
    s!"restriction {localSide} = {remoteSide} resolves both sides to {tableAlias}"
  | duplicateRelation name => s!"duplicate relation name: {name}"
  | missingRestrictions kind table =>
    s!"{kind.name} reference to {table} declares no restrictions"
  | unknownParent => "parent node is not part of this join graph"

/-- The message for each way in which a graph cannot be compiled. -/
def CompileError.message : CompileError → String
  | emptyProjection table => s!"join graph rooted at {table} projects no columns"
  | unsupportedJoin dialect kind table =>
    s!"{dialect.name} cannot express {kind.name} JOIN (to {table})"

/-- The message for each way in which a related record cannot be loaded. -/
def ViewError.message : ViewError → String
  | unknownRelation view relation =>
    s!"view {Text.quoted view} has no relation named {Text.quoted relation}"
  | missingValue relation column =>
    s!"row has no value for {Text.quoted column}, needed to load relation {Text.quoted relation}"

end Joinery
