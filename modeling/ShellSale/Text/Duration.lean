/-!
# Text of durations

Durations are whole milliseconds. Below a second they are shown in milliseconds, from a second on
in seconds with as many decimals as needed; no time at all is shown in nanoseconds.
-/

namespace ShellSale.Text

/-- A number below a thousand as three digits. -/
def threeDigits (n : Nat) : List Char :=
  [n / 100, n / 10 % 10, n % 10].map fun d => Char.ofNat (48 + d)

/-- Drops zeros at the end. -/
def trimZeros (digits : List Char) : List Char :=
  (digits.reverse.dropWhile (· == '0')).reverse

/-- The text of a duration in milliseconds. -/
def duration (ms : Nat) : String :=
  if ms = 0 then "0ns"
  else if ms < 1000 then toString ms ++ "ms"
  else
    let fraction := trimZeros (threeDigits (ms % 1000))
    let decimals := if fraction.isEmpty then "" else "." ++ String.ofList fraction
    toString (ms / 1000) ++ decimals ++ "s"

end ShellSale.Text
