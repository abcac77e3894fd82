import Joinery.Toml.Scan

/-!
# TOML dates and times

A date, a time of day, or both with an optional offset from UTC. Settings never use
one, so only whether a text is one matters. Seconds may be left out.
-/

namespace Joinery.Toml

/-- A number of so many decimal digits. -/
def fixedDigits : Nat → Scan Nat
  | 0 => pure 0
  | width + 1 => do
    let c ← Scan.satisfying Char.isDigit
    let rest ← fixedDigits width
    return (c.toNat - '0'.toNat) * 10 ^ width + rest

/-- A two-digit number within bounds. -/
def twoDigits (least greatest : Nat) : Scan Unit := do
  let n ← fixedDigits 2
  guard (least ≤ n && n ≤ greatest)

def daysIn (year month : Nat) : Nat :=
  if month = 2 then
    if (year % 4 = 0 ∧ year % 100 ≠ 0) ∨ year % 400 = 0 then 29 else 28
  else if month = 4 ∨ month = 6 ∨ month = 9 ∨ month = 11 then 30
  else 31

def date : Scan Unit := do
  let year ← fixedDigits 4
  Scan.char '-'
  let month ← fixedDigits 2
  guard (1 ≤ month && month ≤ 12)
  Scan.char '-'
  twoDigits 1 (daysIn year month)

/-- The seconds of a time, with a fraction of any length. A minute may have a leap second. -/
def seconds : Scan Unit := do
  Scan.char ':'
  twoDigits 0 60
  if (← Scan.perhaps (Scan.char '.')).isSome then
    let digits ← Scan.run Char.isDigit
    guard !digits.isEmpty

/-- A time of day, with or without seconds. -/
def time : Scan Unit := do
  twoDigits 0 23
  Scan.char ':'
  twoDigits 0 59
  if ← Scan.ahead (Scan.char ':') then seconds

/-- An offset from UTC, or the letter for none. -/
def offset : Scan Unit := do
  let c ← Scan.next
  if c == 'Z' || c == 'z' then return
  guard (c == '+' || c == '-')
  twoDigits 0 23
  Scan.char ':'
  twoDigits 0 59

/-- The time behind a date, with an optional offset. -/
def timeAfterDate : Scan Unit := do
  let _ ← Scan.satisfying fun c => c == 'T' || c == 't' || c == ' '
  time
  if !(← Scan.atEnd) then offset

/-- A date, a date with a time, or a time. -/
def dateTime : Scan Unit :=
  (do date; if !(← Scan.atEnd) then timeAfterDate) <|> time

/-- Whether the whole text is a date or a time. -/
def isDateTime (text : List Char) : Bool :=
  (Scan.whole? dateTime text).isSome

end Joinery.Toml
