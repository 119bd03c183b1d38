import ShellSale.Json.Error

/-!
# Numerals

A numeral has a sign, a whole part without needless zeros in front, and perhaps a fraction and an
exponent. A whole numeral of moderate size is an exact integer; every other is a double, computed
from at most nineteen or twenty leading digits and a power of ten.
-/

namespace ShellSale.Json

/-- A numeral as it is written. -/
structure Numeral where
  negative : Bool
  /-- The digits before the point. -/
  whole : List Nat
  /-- The digits after the point, if there is one. -/
  fraction : Option (List Nat) := none
  /-- The exponent, if there is one: whether it is negative, and its size. -/
  exponent : Option (Bool × Nat) := none
deriving DecidableEq

/-- Why characters are not a numeral. -/
inductive Numeral.Fault where
  /-- A character other than a digit where a digit has to stand. -/
  | malformed
  /-- The text ends where a digit has to stand. -/
  | cutShort
deriving DecidableEq

/-- Whether a character is a decimal digit. -/
def isDigit (c : Char) : Bool :=
  '0' ≤ c && c ≤ '9'

/-- The value of a decimal digit. -/
def digitValue (c : Char) : Nat :=
  c.toNat - 48

/-- The digits at the start of a text, and what follows them. -/
def leadingDigits (s : List Char) : List Nat × List Char :=
  ((s.takeWhile isDigit).map digitValue, s.dropWhile isDigit)

/-- The number that digits stand for. -/
def ofDigits (digits : List Nat) : Nat :=
  digits.foldl (fun n d => 10 * n + d) 0

namespace Numeral

/-- The digits at the start of a text, at least one. -/
def someDigits (s : List Char) : Except Fault (List Nat × List Char) :=
  match leadingDigits s with
  | ([], []) => .error .cutShort
  | ([], _ :: _) => .error .malformed
  | (digits, rest) => .ok (digits, rest)

/-- The whole part at the start of a text: a lone zero, or digits that start with no zero. -/
def readWhole (s : List Char) : Except Fault (List Nat × List Char) :=
  match someDigits s with
  | .ok (0 :: _ :: _, _) => .error .malformed
  | result => result

/-- The fraction at the start of a text, if there is one. -/
def readFraction : List Char → Except Fault (Option (List Nat) × List Char)
  | '.' :: s =>
    match someDigits s with
    | .ok (digits, rest) => .ok (some digits, rest)
    | .error fault => .error fault
  | s => .ok (none, s)

/-- The sign of an exponent, and what follows it. -/
def readSign : List Char → Bool × List Char
  | '+' :: s => (false, s)
  | '-' :: s => (true, s)
  | s => (false, s)

/-- The exponent at the start of a text, if there is one. -/
def readExponent (s : List Char) : Except Fault (Option (Bool × Nat) × List Char) :=
  let marked (s : List Char) :=
    match someDigits (readSign s).2 with
    | .ok (digits, rest) => .ok (some ((readSign s).1, ofDigits digits), rest)
    | .error fault => .error fault
  match s with
  | 'e' :: s => marked s
  | 'E' :: s => marked s
  | s => .ok (none, s)

/-- The sign of a numeral, and what follows it. -/
def readMinus : List Char → Bool × List Char
  | '-' :: s => (true, s)
  | s => (false, s)

/-- The numeral at the start of a text. -/
def read (s : List Char) : Except Fault (Numeral × List Char) := do
  let (negative, s) := readMinus s
  let (whole, s) ← readWhole s
  let (fraction, s) ← readFraction s
  let (exponent, s) ← readExponent s
  return ({ negative, whole, fraction, exponent }, s)

/-- The value of a numeral. -/
inductive Value where
  | integer (n : Int)
  | floating (x : Float)

/-- As many digits from the front as fit into 64 bits, and those after them. -/
def mantissa : Nat → List Nat → Nat × List Nat
  | n, [] => (n, [])
  | n, d :: rest => if 10 * n + d < UInt64.size then mantissa (10 * n + d) rest else (n, d :: rest)

/-- A double times a power of ten, in steps of at most `10 ^ 308`; `none` if it is too large. -/
def scaled? (x : Float) (exponent : Int) : Option Float :=
  if exponent < -308 then
    if x == 0 then some x
    else
      let y := x / Float.ofScientific 1 false 308
      let rest := exponent + 308
      if rest < -308 then
        if y == 0 then some y else some (y / Float.ofScientific 1 false 308)
      else some (y / Float.ofScientific 1 false rest.natAbs)
  else if exponent < 0 then some (x / Float.ofScientific 1 false exponent.natAbs)
  else if exponent ≤ 308 then
    let y := x * Float.ofScientific 1 false exponent.natAbs
    if y.isInf then none else some y
  else if x == 0 then some x
  else none

/-- The largest exponent that is reckoned with. -/
def exponentBound : Nat := 0x7fffffff

/-- The double of a numeral, without its sign. The digits that count are those of the whole part as
far as they fit, then those of the fraction as far as they fit behind them. -/
def magnitude? (n : Numeral) : Option Float :=
  let (m, wholeLeft) := mantissa 0 n.whole
  let fraction := n.fraction.getD []
  let (m, fractionLeft) := mantissa m fraction
  let places : Int := (wholeLeft.length : Int) - (fraction.length - fractionLeft.length : Nat)
  match n.exponent with
  | none => scaled? (Float.ofNat m) places
  | some (negative, size) =>
    if size ≤ exponentBound then
      scaled? (Float.ofNat m) (if negative then places - size else places + size)
    else if m = 0 ∨ negative then some 0
    else none

/-- The value of a numeral: an integer if it is written as one and fits 64 bits, with the sign that
it has, and otherwise a double. Minus zero is a double. -/
def value (n : Numeral) : Except ReadError Value :=
  let size := ofDigits n.whole
  let double : Except ReadError Value :=
    match n.magnitude? with
    | some x => .ok (.floating (if n.negative then -x else x))
    | none => .error .numberOutOfRange
  match n.fraction, n.exponent with
  | none, none =>
    if n.negative then
      if 0 < size ∧ size ≤ 0x8000000000000000 then .ok (.integer (-size)) else double
    else if size < UInt64.size then .ok (.integer size)
    else double
  | _, _ => double

end Numeral

end ShellSale.Json
