import Joinery.Text.Split

/-!
# TOML numbers

An integer is decimal with an optional sign, or hexadecimal, octal or binary without
one. A float has a fraction, an exponent or both. Between digits, and only there, an
underscore may stand. A decimal integer has no leading zeros.

Reading a number settles how it is written and not yet what it is worth: the mark of a
base may lack its digits, and of a decimal integer in groups only the first group is
bound to be digits. `Number.isRepresentable` is asked of a number whose value is wanted:
an integer must have digits of its base and fit 128 bits, signed or unsigned, and a
float must not round to infinity.
-/

namespace Joinery.Toml

/-- A number as it is written. -/
inductive Number
  -- what is written for the digits, without the underscores between them
  | integer (negative : Bool) (base : Nat) (digits : List Char)
  -- the value `digits * 10 ^ exponent`
  | float (negative : Bool) (digits : Nat) (exponent : Int)
  | infinite (negative : Bool)
  | notANumber
  deriving DecidableEq, Repr

/-- Whether a text is made of digits, with single underscores between them. -/
def areDigits (isDigit : Char → Bool) : List Char → Bool
  | [] => false
  | [c] => isDigit c
  | c :: '_' :: rest => isDigit c && areDigits isDigit rest
  | c :: rest => isDigit c && areDigits isDigit rest

/-- The value of a digit in bases up to 16. -/
def digitValue (c : Char) : Nat :=
  if c.isDigit then c.toNat - '0'.toNat
  else if c.isLower then c.toNat - 'a'.toNat + 10
  else c.toNat - 'A'.toNat + 10

/-- Whether a character is a digit of a base. -/
def isDigitIn (base : Nat) (c : Char) : Bool :=
  (c.isDigit || ('a' ≤ c && c ≤ 'f') || ('A' ≤ c && c ≤ 'F')) && digitValue c < base

def digitsValue (base : Nat) (digits : List Char) : Nat :=
  digits.foldl (fun n c => n * base + digitValue c) 0

/-- A number without the underscores that group it. -/
def ungrouped (text : List Char) : List Char :=
  text.filter (· != '_')

/-- Whether each underscore of a text stands between two digits of some base up to 16. -/
def isGrouped : List Char → Bool
  | [] => true
  | '_' :: _ => false
  | [_] => true
  | c :: '_' :: rest =>
    isDigitIn 16 c && (rest.head?.map (isDigitIn 16)).getD false && isGrouped rest
  | _ :: c :: rest => isGrouped (c :: rest)

/-- Whether an integer fits 128 bits, with or without a sign. -/
def fitsInteger (n : Int) : Bool :=
  -Int.pow 2 127 ≤ n && n < Int.pow 2 128

/-- Whether `digits * 10 ^ exponent` rounds to infinity as a 64-bit float: the least number that
does is halfway from the greatest float to the next power of two. -/
def roundsToInfinity (digits : Nat) (exponent : Int) : Bool :=
  let limit := Nat.pow 2 1024 - Nat.pow 2 970
  if digits = 0 then false
  else if exponent > 400 then true
  else if 0 ≤ exponent then limit ≤ digits * Nat.pow 10 exponent.toNat
  else if (Nat.toDigits 10 digits).length ≤ exponent.natAbs then false
  else limit * Nat.pow 10 exponent.natAbs ≤ digits

/-- An optional sign, as whether it is a minus, and what follows. -/
def splitSign : List Char → Option Bool × List Char
  | '-' :: rest => (some true, rest)
  | '+' :: rest => (some false, rest)
  | text => (none, text)

/-- Whether a text is a decimal integer part: digits, without a leading zero. -/
def isIntegerPart (text : List Char) : Bool :=
  areDigits Char.isDigit text && (text.length == 1 || text.head? != some '0')

/-- Whether a text is a decimal integer without its sign. The first group is made of decimal
digits. What follows holds no space, and a digit of some base on both sides of each underscore. -/
def isDecimal (text : List Char) : Bool :=
  let first := text.takeWhile Char.isDigit
  if first.length = text.length then isIntegerPart text
  else text[first.length]? == some '_' && text.head? != some '0' && isGrouped text
    && !text.contains ' '

/-- What is before the mark of an exponent, and what is after it if there is one. -/
def splitExponent (text : List Char) : List Char × Option (List Char) :=
  match text.span fun c => c != 'e' && c != 'E' with
  | (before, _ :: after) => (before, some after)
  | (before, []) => (before, none)

/-- A float without its sign, from the digits before and after its point and those of its
exponent. What is not written counts as `0`. -/
def float? (negative : Bool) (whole fraction exponent : List Char) : Option Number :=
  let (sign, exponent) := splitSign exponent
  if isIntegerPart whole && areDigits Char.isDigit fraction && areDigits Char.isDigit exponent then
    let places := ungrouped fraction
    let e : Int := digitsValue 10 (ungrouped exponent)
    some (.float negative (digitsValue 10 (ungrouped whole ++ places))
      ((if sign = some true then -e else e) - places.length))
  else none

/-- A decimal number without its sign. -/
def decimal? (negative : Bool) (text : List Char) : Option Number :=
  let (mantissa, exponent) := splitExponent text
  match Text.cutFirst '.' mantissa, exponent with
  | none, none => if isDecimal text then some (.integer negative 10 (ungrouped text)) else none
  | none, some exponent => float? negative mantissa ['0'] exponent
  | some (whole, fraction), exponent => float? negative whole fraction (exponent.getD ['0'])

/-- An integer in a base that a mark names, which may stand without digits. -/
def based? (base : Nat) (digits : List Char) : Option Number :=
  if digits.isEmpty || areDigits (isDigitIn base) digits then
    some (.integer false base (ungrouped digits))
  else none

namespace Number

/-- The number that a text stands for. -/
def ofChars? (text : List Char) : Option Number :=
  match text with
  | '0' :: 'x' :: digits => based? 16 digits
  | '0' :: 'o' :: digits => based? 8 digits
  | '0' :: 'b' :: digits => based? 2 digits
  | _ =>
    let (sign, rest) := splitSign text
    let negative := sign = some true
    if rest = "inf".toList then some (.infinite negative)
    else if rest = "nan".toList then some .notANumber
    else decimal? negative rest

/-- Whether a number has a value that a machine type holds. -/
def isRepresentable : Number → Bool
  | .integer negative base digits =>
    let n : Int := digitsValue base digits
    !digits.isEmpty && digits.all (isDigitIn base) && fitsInteger (if negative then -n else n)
  | .float _ digits exponent => !roundsToInfinity digits exponent
  | .infinite _ => true
  | .notANumber => true

end Number

end Joinery.Toml
