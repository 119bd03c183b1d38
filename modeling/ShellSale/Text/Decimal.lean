/-!
# Decimal text of doubles

A double stands for all reals that round to it. `shortest?` looks through ever finer decimal grids
for the first that has a point among these reals, and takes the nearer one of the two neighbours
of the value on that grid. `double` writes the digits: positionally while the first digit stands
between the fifth place after the point and the sixteenth before it, with an exponent otherwise.
-/

namespace ShellSale.Text

/-- A positive decimal number: digits, and the power of ten that the last of them counts. -/
structure Decimal where
  digits : Nat
  exponent : Int
deriving DecidableEq

/-- The positive reals that round to one double, in units of `1 / unit`: the double itself and the
ends of the interval, which belong to it if `closed`. -/
structure RoundingInterval where
  low : Nat
  value : Nat
  high : Nat
  unit : Nat
  closed : Bool

namespace RoundingInterval

/-- The interval of `mantissa * 2 ^ exponent`. Below a power of two the doubles are twice as close
as above it, except for the smallest. -/
def ofDouble (mantissa : Nat) (exponent : Int) : RoundingInterval :=
  let scale := Nat.pow 2 (exponent - 2).toNat
  let narrow := mantissa = 0x10000000000000 ∧ -1074 < exponent
  { low := (4 * mantissa - if narrow then 1 else 2) * scale
    value := 4 * mantissa * scale
    high := (4 * mantissa + 2) * scale
    unit := Nat.pow 2 (2 - exponent).toNat
    closed := mantissa % 2 = 0 }

/-- Whether the real `n * 10 ^ k` belongs to the interval. -/
def contains (i : RoundingInterval) (n : Nat) (k : Int) : Bool :=
  let point := n * Nat.pow 10 k.toNat * i.unit
  let scale := Nat.pow 10 (-k).toNat
  if i.closed then i.low * scale ≤ point ∧ point ≤ i.high * scale
  else i.low * scale < point ∧ point < i.high * scale

/-- Writes ten of a unit as one of the next. On the coarsest grid the nearest point can be ten; on a
finer one no digits end in a zero, as a coarser grid would have had the point. -/
def carry (d : Decimal) : Decimal :=
  if d.digits = 10 then ⟨1, d.exponent + 1⟩ else d

/-- The point of the grid of `10 ^ k` in the interval that is nearest to the value; of two equally
near points the even one. -/
def onGrid? (i : RoundingInterval) (k : Int) : Option Decimal :=
  let step := Nat.pow 10 k.toNat * i.unit
  let value := i.value * Nat.pow 10 (-k).toNat
  let below := value / step
  let nearer :=
    if 2 * (value % step) < step ∨ (2 * (value % step) = step ∧ below % 2 = 0) then
      [below, below + 1]
    else [below + 1, below]
  (nearer.find? fun n => i.contains n k).map fun n => carry ⟨n, k⟩

/-- The power of ten that the first digit of the value counts. -/
def leadingExponent (i : RoundingInterval) : Int :=
  if i.unit ≤ i.value then (toString (i.value / i.unit)).length - 1
  else -(((List.range 400).find? fun j => i.unit ≤ i.value * Nat.pow 10 j).getD 0)

/-- The fewest digits that belong to the interval. Seventeen always do. -/
def shortest? (i : RoundingInterval) : Option Decimal :=
  (List.range 17).findSome? fun (n : Nat) => i.onGrid? (i.leadingExponent - n)

end RoundingInterval

namespace Decimal

/-- The digits of a decimal as characters. -/
def figures (d : Decimal) : List Char :=
  (toString d.digits).toList

/-- The power of ten that the first digit counts. -/
def leading (d : Decimal) : Int :=
  d.exponent + d.figures.length - 1

/-- Digits with a point, at least one digit on either side of it. -/
def positional (d : Decimal) : List Char :=
  let figures := d.figures
  let whole := (d.leading + 1).toNat
  if d.leading < 0 then
    '0' :: '.' :: List.replicate (-d.leading - 1).toNat '0' ++ figures
  else
    let fraction := figures.drop whole
    figures.take whole ++ List.replicate (whole - figures.length) '0' ++
      '.' :: (if fraction.isEmpty then ['0'] else fraction)

/-- One digit, the others after a point, and the exponent with its sign. -/
def scientific (d : Decimal) : List Char :=
  let mantissa :=
    match d.figures with
    | first :: second :: rest => first :: '.' :: second :: rest
    | short => short
  let sign := if d.leading < 0 then '-' else '+'
  mantissa ++ 'e' :: sign :: (toString d.leading.natAbs).toList

/-- The decimal in the notation for its size. -/
def written (d : Decimal) : List Char :=
  if -5 ≤ d.leading ∧ d.leading ≤ 15 then d.positional else d.scientific

end Decimal

/-- The text of a finite double. -/
def double (x : Float) : String :=
  let bits := x.toBits.toNat
  let sign := if bits < 0x8000000000000000 then [] else ['-']
  let field : Nat := bits / 0x10000000000000 % 0x800
  let fraction : Nat := bits % 0x10000000000000
  let interval :=
    if field = 0 then RoundingInterval.ofDouble fraction (-1074)
    else RoundingInterval.ofDouble (0x10000000000000 + fraction) ((field : Int) - 1075)
  let digits := if interval.value = 0 then some ⟨0, 0⟩ else interval.shortest?
  String.ofList (sign ++ (digits.getD ⟨0, 0⟩).written)

end ShellSale.Text
