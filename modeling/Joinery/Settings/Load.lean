import Joinery.Settings.Basic
import Joinery.Settings.Files

/-!
# Loading settings

Settings come from the file that the environment names, else from the file in the working
directory, else from the user's own, else they are the defaults. A file that the
environment names must be there; the other two may be absent. The first that counts is
read, and if it cannot be, that is the answer.

`Settings.ofFile` is `from_file`, and `Settings.load` is `load`.
-/

namespace Joinery

/-- Where settings may be found. -/
structure SettingsPlaces where
  -- the path that the environment names, if it does
  named : Option String
  nearby : String
  user : String
  deriving DecidableEq, Repr

namespace Settings

/-- The settings of one file, which must be there, must be readable and must be valid. -/
def ofFile (t : FileTree) (path : String) : Except SettingsError Settings :=
  match t.find? path with
  | none => .error (.fileNotFound path)
  | some .directory => .error .unreadable
  | some (.file content) =>
    match String.fromUTF8? content with
    | none => .error .unreadable
    | some text => ofText text

/-- The settings that apply. A path that is named must lead to a file; of the other two places the
first with a file counts, and without any the standard applies. -/
def load (t : FileTree) (places : SettingsPlaces) : Except SettingsError Settings :=
  match places.named with
  | some path => ofFile t path
  | none =>
    if (t.find? places.nearby).isSome then ofFile t places.nearby
    else if (t.find? places.user).isSome then ofFile t places.user
    else .ok {}

end Settings

end Joinery
