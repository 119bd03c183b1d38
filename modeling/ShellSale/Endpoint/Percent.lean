import ShellSale.Bytes.Hex

/-!
# Percent-encoding

Characters that cannot stand in a part of an address are written as the bytes of their UTF-8 form,
each a percent sign and two digits.
-/

namespace ShellSale.Percent

open Bytes

/-- A byte as a percent sign and two upper-case digits. -/
def ofByte (b : UInt8) : List Char :=
  ['%', (hexDigit (b.toNat / 16)).toUpper, (hexDigit (b.toNat % 16)).toUpper]

/-- The characters that no part of an address holds: controls, and all that is not ASCII. -/
def isForeign (c : Char) : Bool :=
  c.toNat < 0x20 || 0x7e < c.toNat

/-- One character of a part of an address that does not hold the characters `reserved` either. -/
def encodeChar (reserved : List Char) (c : Char) : List Char :=
  if isForeign c || reserved.contains c then (String.utf8EncodeChar c).flatMap ofByte else [c]

/-- Text in a part of an address that does not hold the characters `reserved`. -/
def encode (reserved : List Char) (text : List Char) : List Char :=
  text.flatMap (encodeChar reserved)

/-- The byte at the head of encoded text, and what follows it. -/
def byte? : List Char → Option (UInt8 × List Char)
  | '%' :: hi :: lo :: rest => do
    let h ← hexValue? hi
    let l ← hexValue? lo
    return (UInt8.ofNat (16 * h + l), rest)
  | _ => none

/-- A byte at the head is followed by less text. -/
theorem length_of_byte? {text rest : List Char} {b : UInt8} (h : byte? text = some (b, rest)) :
    rest.length < text.length := by
  unfold byte? at h
  split at h
  · simp only [Option.bind_eq_bind, Option.pure_def, Option.bind_eq_some_iff, Option.some.injEq,
      Prod.mk.injEq] at h
    obtain ⟨_, _, _, _, _, rfl⟩ := h
    simp only [List.length_cons]
    omega
  · simp at h

/-- The bytes that encoded text stands for. A percent sign without two digits stands for itself. -/
def decode (text : List Char) : List UInt8 :=
  match _h : byte? text with
  | some (b, rest) => b :: decode rest
  | none =>
    match text with
    | [] => []
    | c :: rest => String.utf8EncodeChar c ++ decode rest
termination_by text.length
decreasing_by
  · exact length_of_byte? _h
  · simp

/-! ### What the parts of an address do not hold -/

/-- What the fragment of an address does not hold. -/
def fragmentSet : List Char :=
  [' ', '\x22', '<', '>', '\x60']

/-- What the path of an address does not hold. -/
def pathSet : List Char :=
  fragmentSet ++ ['#', '?', '\x7b', '\x7d']

/-- What user names and passwords do not hold. -/
def userinfoSet : List Char :=
  pathSet ++ ['/', ':', ';', '=', '@', '[', '\\', ']', '^', '|']

/-- What a query does not hold. -/
def querySet : List Char :=
  [' ', '\x22', '#', '<', '>']

/-- What the query of a scheme with hosts does not hold. -/
def specialQuerySet : List Char :=
  '\x27' :: querySet

end ShellSale.Percent
