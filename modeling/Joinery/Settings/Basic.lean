import Joinery.Alias
import Joinery.Compiler
import Joinery.Toml.Document

/-!
# Settings

How graphs are compiled and which prefixes their aliases have, read from a TOML
document. What the document leaves out keeps its default; a value of the wrong kind is
an error. Keys that are not known are ignored, but the numbers under them must be
representable. A prefix must be a plain identifier.

`Settings.ofText` is `from_toml`, `check` is `validate`, and `aliasIssuer` is the
allocator's `from_settings`.
-/

namespace Joinery

/-- All settings, with what applies where a file is silent. -/
structure Settings where
  compiler : Compiler := {}
  rootPrefix : String := "t"
  joinPrefix : String := "j"
  deriving DecidableEq, Repr, Inhabited

/-- What keeps settings from being read. -/
inductive SettingsError
  | fileNotFound (path : String)
  -- the file is there but is no text
  | unreadable
  /-- The text is no TOML document, or holds a value of the wrong kind or a number that cannot be
  represented. -/
  | malformed
  | invalidPrefix (role : Role) (value : String)
  deriving DecidableEq, Repr

/-- The key under which a prefix stands in a file. -/
def Role.prefixKey : Role → String
  | .root => "aliases.root_prefix"
  | .joined => "aliases.join_prefix"

/-- The error in words, unless it takes its words from elsewhere. -/
def SettingsError.message? : SettingsError → Option String
  | fileNotFound path => some s!"Config file not found: {path}"
  | unreadable => none
  | malformed => none
  | invalidPrefix role value =>
    let wanted := s!"{role.prefixKey} must be a plain identifier"
    some s!"Invalid configuration: {wanted}, got {Text.quoted value}"

namespace Settings

/-! ## Reading a document -/

/-- The value of a field of a section, or its default where the section lacks it. -/
def fieldOr {α : Type} (read : Toml.Value → Option α) (fallback : α) :
    Option Toml.Value → Option α
  | none => some fallback
  | some v => read v

/-- The fields of a table, in the order of their keys. What stands under other keys must be
representable. -/
def fieldsOfEntries? (keys : List String) (entries : Toml.Entries) :
    Option (List (Option Toml.Value)) := do
  guard (Toml.Entries.areRepresentable (entries.filter fun (key, _) => !keys.contains key))
  return keys.map fun key => entries.lookup key

/-- The fields of a section, in the order of their keys. A section is a table; or a list of the
fields, of which later ones may be left out and further ones are not looked at; a date counts as a
table without known keys. -/
def fieldsOf? (keys : List String) : Toml.Value → Option (List (Option Toml.Value))
  | .table _ entries => fieldsOfEntries? keys entries
  | .array items => some (keys.mapIdx fun i _ => items[i]?)
  | .tables items => some (keys.mapIdx fun i _ => items[i]?.map fun (o, es) => .table o es)
  | .dateTime _ => some (keys.map fun _ => none)
  | _ => none

/-- The name in a choice among names: a string, or a table with the name as its only key and
nothing under it. -/
def choice? : Toml.Value → Option String
  | .string name => some name
  | .table _ [(name, .table _ [])] => some name
  | .table _ [(name, .array [])] => some name
  | _ => none

/-- A value where a text is asked for. -/
def text? : Toml.Value → Option String
  | .string text => some text
  | _ => none

/-- A value where a truth value is asked for. -/
def boolean? : Toml.Value → Option Bool
  | .boolean b => some b
  | _ => none

def compiler? (v : Toml.Value) : Option Compiler := do
  let fallback : Compiler := {}
  match ← fieldsOf? ["dialect", "not_equals", "pretty"] v with
  | [dialect, notEquals, pretty] =>
    return {
      dialect := ← fieldOr (fun v => (choice? v).bind Dialect.ofName?) fallback.dialect dialect
      notEquals :=
        ← fieldOr (fun v => (choice? v).bind NotEqualsForm.ofName?) fallback.notEquals notEquals
      pretty := ← fieldOr boolean? fallback.pretty pretty }
  | _ => none

/-- The section about aliases: prefix of the root, prefix of the joined tables. -/
def prefixes? (v : Toml.Value) : Option (String × String) := do
  let fallback : Settings := {}
  match ← fieldsOf? ["root_prefix", "join_prefix"] v with
  | [root, join] =>
    return (← fieldOr text? fallback.rootPrefix root, ← fieldOr text? fallback.joinPrefix join)
  | _ => none

/-- The settings of a document; sections it does not have keep what applies without it. -/
def ofEntries? (entries : Toml.Entries) : Option Settings := do
  let fallback : Settings := {}
  match ← fieldsOfEntries? ["compiler", "aliases"] entries with
  | [compiler, aliases] =>
    let compiler ← fieldOr compiler? fallback.compiler compiler
    let (rootPrefix, joinPrefix) ←
      fieldOr prefixes? (fallback.rootPrefix, fallback.joinPrefix) aliases
    return { compiler, rootPrefix, joinPrefix }
  | _ => none

/-! ## Checking -/

/-- Refuses a prefix that is no plain identifier. -/
def checkPrefix (role : Role) (value : String) : Except SettingsError Unit :=
  if Text.isPlainIdentifier value.toList then .ok () else .error (.invalidPrefix role value)

/-- Refuses settings with a prefix that is no plain identifier. -/
def check (s : Settings) : Except SettingsError Unit := do
  checkPrefix .root s.rootPrefix
  checkPrefix .joined s.joinPrefix

/-- Reads settings and checks them, in this order. -/
def ofText (text : String) : Except SettingsError Settings :=
  match (Toml.documentEntries? text).bind ofEntries? with
  | none => .error .malformed
  | some s => do s.check; return s

/-- A fresh issuer of aliases with the prefixes of the settings. -/
def aliasIssuer (s : Settings) : AliasIssuer :=
  .withPrefixes s.rootPrefix s.joinPrefix

end Settings

end Joinery
