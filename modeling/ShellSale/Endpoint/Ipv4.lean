import ShellSale.Bytes.Hex

/-!
# IPv4 addresses

Hosts whose last part is a number are IPv4 addresses. They may be given in fewer than four parts,
of which the last fills all that is left, and a part may be decimal, octal or hexadecimal; they are
written as four decimal numbers. Main statement: `length_of_read?`, an address that is read has four
bytes.
-/

namespace ShellSale.Ipv4

open Bytes

/-- The value of digits to a base, if they all are digits to it. -/
def value? (base : Nat) (digits : List Char) : Option Nat :=
  digits.foldlM (fun n c => do
    let d ← hexValue? c
    if d < base then some (n * base + d) else none) 0

/-- The number that a part of an address stands for: hexadecimal behind `0x`, octal behind another
zero. A base without digits stands for zero. -/
def part? : List Char → Option Nat
  | [] => none
  | ['0'] => some 0
  | '0' :: 'x' :: digits => value? 16 digits
  | '0' :: 'X' :: digits => value? 16 digits
  | '0' :: digits => value? 8 digits
  | digits => value? 10 digits

/-- The parts of a host. A dot at its end adds none. -/
def parts (host : List Char) : List (List Char) :=
  let parts := host.splitOn '.'
  if parts.getLast? = some [] then parts.dropLast else parts

/-- Whether a host has to be an address: its last part is a number, or at least looks like one. -/
def isMeant (host : List Char) : Bool :=
  match (parts host).getLast? with
  | none => false
  | some last => (!last.isEmpty && last.all Char.isDigit) || (part? last).isSome

/-- The address of leading numbers, each a byte, and a number that fills the rest. -/
def assemble (leading : List Nat) (last : Nat) : Option (List UInt8) :=
  let rest := bigEndian (4 - leading.length) last
  if leading.length < 4 ∧ leading.all (· < 256) ∧ ofBigEndian rest = last then
    some (leading.map UInt8.ofNat ++ rest)
  else none

/-- Reads an address. -/
def read? (host : List Char) : Option (List UInt8) := do
  let numbers ← (parts host).mapM part?
  let last ← numbers.getLast?
  assemble numbers.dropLast last

/-- An address has four bytes. -/
theorem length_of_assemble {leading : List Nat} {last : Nat} {address : List UInt8}
    (h : assemble leading last = some address) : address.length = 4 := by
  simp only [assemble] at h
  split at h
  · rename_i fits
    simp only [Option.some.injEq] at h
    simp only [← h, List.length_append, List.length_map, length_bigEndian]
    omega
  · simp at h

/-- An address that is read has four bytes. -/
theorem length_of_read? {host : List Char} {address : List UInt8} (h : read? host = some address) :
    address.length = 4 := by
  simp only [read?, Option.bind_eq_bind, Option.bind_eq_some_iff] at h
  obtain ⟨_, -, _, -, h⟩ := h
  exact length_of_assemble h

/-- An address as decimal numbers. -/
def written (address : List UInt8) : String :=
  ".".intercalate (address.map fun b => toString b.toNat)

end ShellSale.Ipv4
