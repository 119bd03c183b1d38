import ShellSale.Json.Error

/-!
# Strings

A string stands between double quotes; inside, a backslash starts an escape. A character beyond the
first plane may be written as two escapes that stand for its two surrogates. A string that is kept
must be text, one that is skipped only has to be in the right form. Both readers start behind the
opening quote.
-/

namespace ShellSale.Json

/-- The character that a one-letter escape stands for. -/
def shortEscape? : Char → Option Char
  | '"' => some '"'
  | '\\' => some '\\'
  | '/' => some '/'
  | 'b' => some '\x08'
  | 'f' => some '\x0c'
  | 'n' => some '\n'
  | 'r' => some '\r'
  | 't' => some '\t'
  | _ => none

/-- The 16-bit unit of four hexadecimal digits. -/
def unit? (a b c d : Char) : Option Nat := do
  let a ← Bytes.hexValue? a
  let b ← Bytes.hexValue? b
  let c ← Bytes.hexValue? c
  let d ← Bytes.hexValue? d
  return ((16 * a + b) * 16 + c) * 16 + d

/-- Whether a unit is the first of a surrogate pair. -/
def isLeading (u : Nat) : Bool :=
  0xD800 ≤ u && u ≤ 0xDBFF

/-- Whether a unit is the second of a surrogate pair. -/
def isTrailing (u : Nat) : Bool :=
  0xDC00 ≤ u && u ≤ 0xDFFF

/-- The character of a surrogate pair. -/
def paired (leading trailing : Nat) : Char :=
  Char.ofNat (0x10000 + (leading - 0xD800) * 0x400 + (trailing - 0xDC00))

/-- Why four digits cannot be read from the start of a text: it has less than four bytes left, or
something else stands there. -/
def unitFault (s : List Char) : ReadError :=
  if (String.ofList s).utf8ByteSize < 4 then .endInString else .invalidEscape

/-- Why the second escape of a pair cannot start a text. -/
def pairFault : List Char → ReadError
  | [] | ['\\'] => .endInString
  | _ => .unpairedSurrogate

/-- Whether a character may not stand in a string. -/
def isControl (c : Char) : Bool :=
  c.toNat < 0x20

/-- The rest of a string that is kept, behind characters read already, and what follows it. -/
def readString (acc : List Char) : List Char → Except ReadError (String × List Char)
  | [] => .error .endInString
  | '"' :: rest => .ok (String.ofList acc.reverse, rest)
  | ['\\'] => .error .endInString
  | '\\' :: 'u' :: a :: b :: c :: d :: rest =>
    match unit? a b c d with
    | none => .error .invalidEscape
    | some u =>
      if isTrailing u then .error .loneSurrogate
      else if isLeading u then
        match rest with
        | '\\' :: 'u' :: a' :: b' :: c' :: d' :: rest' =>
          match unit? a' b' c' d' with
          | none => .error .invalidEscape
          | some v =>
            if isTrailing v then readString (paired u v :: acc) rest'
            else .error .loneSurrogate
        | '\\' :: 'u' :: short => .error (unitFault short)
        | other => .error (pairFault other)
      else readString (Char.ofNat u :: acc) rest
  | '\\' :: 'u' :: short => .error (unitFault short)
  | '\\' :: c :: rest =>
    match shortEscape? c with
    | some e => readString (e :: acc) rest
    | none => .error .invalidEscape
  | c :: rest => if isControl c then .error .controlCharacter else readString (c :: acc) rest

/-- A character that stands for itself is kept. -/
theorem readString_plain {c : Char} (allowed : isControl c = false ∧ c ≠ '"' ∧ c ≠ '\\')
    (acc s : List Char) : readString acc (c :: s) = readString (c :: acc) s := by
  obtain ⟨shown, quote, escape⟩ := allowed
  rw [readString.eq_def]
  simp [shown, escape]

/-- What follows a string that is skipped. -/
def skipString : List Char → Except ReadError (List Char)
  | [] => .error .endInString
  | '"' :: rest => .ok rest
  | ['\\'] => .error .endInString
  | '\\' :: 'u' :: a :: b :: c :: d :: rest =>
    match unit? a b c d with
    | none => .error .invalidEscape
    | some _ => skipString rest
  | '\\' :: 'u' :: short => .error (unitFault short)
  | '\\' :: c :: rest =>
    match shortEscape? c with
    | some _ => skipString rest
    | none => .error .invalidEscape
  | c :: rest => if isControl c then .error .controlCharacter else skipString rest

end ShellSale.Json
