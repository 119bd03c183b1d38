/-!
# Base 58

Bytes are read as one big-endian number and written with 58 digits that leave out the characters
easily mistaken for each other. Every leading zero byte is written as the zero digit.
-/

namespace ShellSale.Bytes

/-- The digits, by value. -/
def base58Alphabet : List Char :=
  "123456789ABCDEFGHJKLMNPQRSTUVWXYZabcdefghijkmnopqrstuvwxyz".toList

/-- The digit of a value below 58. -/
def base58Digit (n : Nat) : Char :=
  base58Alphabet.getD n '1'

/-- The digits of a number, put in front of `acc`, most significant first; zero has none. -/
def base58Digits (n : Nat) (acc : List Char) : List Char :=
  if h : n = 0 then acc
  else base58Digits (n / 58) (base58Digit (n % 58) :: acc)
termination_by n
decreasing_by exact Nat.div_lt_self (Nat.pos_of_ne_zero h) (by decide)

/-- The base 58 text of bytes. -/
def base58 (bytes : List UInt8) : String :=
  let zeros := bytes.takeWhile (· == 0)
  let number := bytes.foldl (fun acc b => 256 * acc + b.toNat) 0
  String.ofList (zeros.map (fun _ => '1') ++ base58Digits number [])

end ShellSale.Bytes
