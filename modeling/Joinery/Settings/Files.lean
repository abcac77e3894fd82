/-!
# File trees

Files and directories, given as data, and the finding of what a path leads to. A path
starts at the root or at the working directory and is walked name by name. Every name
but the last must lead to a directory; so must the last where a slash follows it.

This is what reading a settings file sees of the file system.
-/

namespace Joinery

/-- What stands at a place of a file tree. -/
inductive FileEntry
  | file (content : ByteArray)
  | directory

/-- A place of a file tree: the names that lead to it from the root. -/
abbrev FilePlace := List String

/-- Files and directories by their places. Of several entries for one place the last counts, and
directories on the way to one need no entry. -/
structure FileTree where
  entries : List (FilePlace × FileEntry)
  -- where a path starts that does not start with a slash
  working : FilePlace

namespace FileTree

/-- A tree that has only the directory where work is done. -/
def ofWorking (working : FilePlace) : FileTree :=
  ⟨[(working, .directory)], working⟩

/-- What stands at a place; a directory is also there if something is below it. -/
def entryAt? (t : FileTree) (place : FilePlace) : Option FileEntry :=
  match t.entries.reverse.find? (·.1 == place) with
  | some (_, entry) => some entry
  | none => if t.entries.any fun e => place.isPrefixOf e.1 then some .directory else none

def names (path : String) : List String :=
  path.splitOn "/"

/-- Where the walk along a path begins. -/
def start (t : FileTree) (path : String) : FilePlace :=
  if path.startsWith "/" then [] else t.working

/-- The place that one more name leads to. The root is above itself. -/
def follow (place : FilePlace) (name : String) : FilePlace :=
  if name = "" ∨ name = "." then place
  else if name = ".." then place.dropLast
  else place ++ [name]

/-! ## Finding -/

/-- One step of a walk, out of what must be a directory to a place where something stands. -/
def step? (t : FileTree) (place : FilePlace) (name : String) : Option FilePlace :=
  match t.entryAt? place with
  | some .directory =>
    let next := follow place name
    (t.entryAt? next).map fun _ => next
  | _ => none

/-- The greatest length of a path that is walked, in bytes. -/
def longestPath : Nat := 4095

/-- What a path leads to, if anything is there. The empty path leads nowhere, and so does one that
is too long. -/
def find? (t : FileTree) (path : String) : Option FileEntry :=
  if path.isEmpty || longestPath < path.utf8ByteSize then none
  else ((names path).foldlM t.step? (t.start path)).bind t.entryAt?

/-! ## Filling -/

/-- The tree with an entry more, which hides an older one at its place. -/
def withEntry (t : FileTree) (place : FilePlace) (entry : FileEntry) : FileTree :=
  { t with entries := t.entries ++ [(place, entry)] }

/-- The tree with a directory at a place, unless something is there already. -/
def withDirectory (t : FileTree) (place : FilePlace) : FileTree :=
  if (t.entryAt? place).isSome then t else t.withEntry place .directory

/-- The tree with an entry put where a path leads, and directories made on the way. -/
def put (t : FileTree) (path : String) (entry : FileEntry) : FileTree :=
  let (t, place) := (names path).foldl
    (fun (t, place) name => (withDirectory t place, follow place name)) (t, t.start path)
  t.withEntry place entry

end FileTree

end Joinery
