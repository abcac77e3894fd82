/-!
# Scanning text

A scan reads something from the front of a text and leaves the rest, or fails and leaves
everything to an alternative. Repetition goes on for as long as what is repeated
consumes something, so it always ends.
-/

namespace Joinery.Toml

/-- Reads a value from the front of a text, or fails. -/
abbrev Scan (α : Type) := StateT (List Char) Option α

namespace Scan

def next : Scan Char
  | [] => none
  | c :: rest => some (c, rest)

def satisfying (property : Char → Bool) : Scan Char
  | [] => none
  | c :: rest => if property c then some (c, rest) else none

def char (c : Char) : Scan Unit := do
  let _ ← satisfying (· == c)

def text : List Char → Scan Unit
  | [] => pure ()
  | c :: rest => do char c; text rest

/-- All characters up to the first without a property. -/
def run (property : Char → Bool) : Scan (List Char) := fun input =>
  some (input.takeWhile property, input.dropWhile property)

def perhaps {α : Type} (p : Scan α) : Scan (Option α) := fun input =>
  match p input with
  | some (a, rest) => some (some a, rest)
  | none => some (none, input)

/-- Whether something comes next, which is not read. -/
def ahead {α : Type} (p : Scan α) : Scan Bool := fun input =>
  some ((p input).isSome, input)

def atEnd : Scan Bool := fun input =>
  some (input.isEmpty, input)

/-- What a scan reads again and again, until it fails or reads nothing more. -/
def many {α : Type} (p : Scan α) : Scan (List α) := fun input =>
  match p input with
  | none => some ([], input)
  | some (a, rest) =>
    if _h : rest.length < input.length then
      match many p rest with
      | some (as, rest) => some (a :: as, rest)
      | none => none
    else some ([], input)
termination_by input => input.length

/-- As many of these as there are, at most `limit`; reads them and counts them. -/
def upTo (c : Char) : Nat → Scan Nat
  | 0 => pure 0
  | limit + 1 => fun input =>
    match input with
    | [] => some (0, [])
    | d :: rest =>
      if d = c then (upTo c limit rest).map fun (n, rest) => (n + 1, rest) else some (0, d :: rest)

/-- What a scan reads, provided that nothing is left. -/
def whole? {α : Type} (p : Scan α) (input : List Char) : Option α :=
  match p input with
  | some (a, []) => some a
  | _ => none

end Scan

end Joinery.Toml
