import ShellSale.Bytes.Hex
import ShellSale.Text.Printable

/-!
# Quoted text

Text between double quotes, with a backslash before what would end or blur it.
-/

namespace ShellSale.Text

/-- The hexadecimal digits of a number, without zeros in front. -/
def hexNumber (n : Nat) : List Char :=
  if n < 16 then [Bytes.hexDigit n] else hexNumber (n / 16) ++ [Bytes.hexDigit (n % 16)]

/-- A character inside quoted text. -/
def quotedChar (c : Char) : List Char :=
  if c = '\x00' then ['\\', '0']
  else if c = '\t' then ['\\', 't']
  else if c = '\r' then ['\\', 'r']
  else if c = '\n' then ['\\', 'n']
  else if c = '"' ∨ c = '\\' then ['\\', c]
  else if isPrintable c then [c]
  else ['\\', 'u', '\x7b'] ++ hexNumber c.toNat ++ ['\x7d']

/-- Text between quotes. -/
def quoted (s : String) : String :=
  String.ofList ('"' :: s.toList.flatMap quotedChar ++ ['"'])

end ShellSale.Text
