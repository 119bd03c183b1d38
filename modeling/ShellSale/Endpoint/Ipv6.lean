import ShellSale.Bytes.Hex

/-!
# IPv6 addresses

An address has eight groups of 16 bits. Groups of zero may be left out in one place, which is
written `::`, and the last two groups may be given as an IPv4 address. `Ipv6.written` leaves out the
first of the longest runs of zeros.
-/

namespace ShellSale.Ipv6

open Bytes

/-- A group of one to four hexadecimal digits. -/
def group? (digits : List Char) : Option Nat := do
  if digits.isEmpty || 4 < digits.length then none
  digits.foldlM (fun n c => (hexValue? c).map (n * 16 + ·)) 0

/-- A byte in decimal, without leading zeros. -/
def byte? (digits : List Char) : Option Nat := do
  if digits.isEmpty || !digits.all Char.isDigit then none
  if digits.head? = some '0' && 1 < digits.length then none
  let n := digits.foldl (fun n c => n * 10 + (c.toNat - 48)) 0
  if n < 256 then some n else none

/-- The two groups of an IPv4 address. -/
def quad? (text : List Char) : Option (List Nat) := do
  let [a, b, c, d] ← (text.splitOn '.').mapM byte? | none
  return [a * 256 + b, c * 256 + d]

/-- The groups in pieces between colons. The last piece may be an IPv4 address. -/
def pieces? : List (List Char) → Option (List Nat)
  | [] => some []
  | [last] => if last.contains '.' then quad? last else (group? last).map ([·])
  | piece :: rest => do
    let g ← group? piece
    let groups ← pieces? rest
    return g :: groups

/-- The groups of a part of an address. -/
def groups? (text : List Char) : Option (List Nat) :=
  if text.isEmpty then some [] else pieces? (text.splitOn ':')

/-- The groups of a part that is not the last, so that no IPv4 address stands in it. -/
def plainGroups? (text : List Char) : Option (List Nat) :=
  if text.contains '.' then none else groups? text

/-- The text before and behind the first `::`. -/
def splitGap? : List Char → Option (List Char × List Char)
  | ':' :: ':' :: rest => some ([], rest)
  | [] => none
  | c :: rest => (splitGap? rest).map fun (left, right) => (c :: left, right)

/-- Reads an address: eight groups, or at most seven around a gap. -/
def read? (text : List Char) : Option (List Nat) := do
  match splitGap? text with
  | none =>
    let groups ← groups? text
    if groups.length = 8 then some groups else none
  | some (left, right) =>
    let before ← plainGroups? left
    let after ← groups? right
    let given := before.length + after.length
    if given < 8 then some (before ++ List.replicate (8 - given) 0 ++ after) else none

/-- An address that is read has eight groups. -/
theorem length_of_read? {text : List Char} {groups : List Nat} (h : read? text = some groups) :
    groups.length = 8 := by
  unfold read? at h
  split at h
  · simp only [Option.bind_eq_bind, Option.bind_eq_some_iff] at h
    obtain ⟨_, -, h⟩ := h
    split at h
    · simp_all
    · simp at h
  · simp only [Option.bind_eq_bind, Option.bind_eq_some_iff] at h
    obtain ⟨_, -, _, -, h⟩ := h
    split at h
    · simp only [Option.some.injEq] at h
      simp only [← h, List.length_append, List.length_replicate]
      omega
    · simp at h

/-- How many zeros a list starts with. -/
def zeros (groups : List Nat) : Nat :=
  (groups.takeWhile (· = 0)).length

/-- The place and length of the first of the longest runs of zeros, from a place on. -/
def longestRun (place : Nat) : List Nat → Nat × Nat
  | [] => (place, 0)
  | g :: rest =>
    let here := zeros (g :: rest)
    let later := longestRun (place + 1) rest
    if later.2 ≤ here then (place, here) else later

/-- Groups with colons between them. -/
def joined (groups : List Nat) : String :=
  ":".intercalate (groups.map fun g => String.ofList (Nat.toDigits 16 g))

/-- An address in its shortest form. -/
def written (groups : List Nat) : String :=
  let (place, length) := longestRun 0 groups
  if length < 2 then joined groups
  else joined (groups.take place) ++ "::" ++ joined (groups.drop (place + length))

end ShellSale.Ipv6
