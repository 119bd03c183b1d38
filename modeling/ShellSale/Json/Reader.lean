import ShellSale.Json.Token

/-!
# Readers of values

A reader takes a value of one type from the start of a text. A value of another type is an error
that shows what stands there; to show it, it is read first as far as needed, so that text which is
no JSON at all is reported as such.
-/

namespace ShellSale.Json

/-- Reads a value from the start of a text, and gives the rest. -/
abbrev Reader (α : Type) := List Char → Except ReadError (α × List Char)

/-- The error of a numeral that is kept. -/
def Numeral.Fault.error : Numeral.Fault → ReadError
  | malformed => .invalidNumber
  | cutShort => .endInValue

/-- The value of the numeral at the start of a text. -/
def readNumeral : Reader Numeral.Value := fun s =>
  match Numeral.read s with
  | .error fault => .error fault.error
  | .ok (numeral, rest) =>
    match numeral.value with
    | .ok value => .ok (value, rest)
    | .error e => .error e

/-- A numeral as a message shows it. -/
def Numeral.Value.found : Numeral.Value → Found
  | integer n => .integer n
  | floating x => .floating x

/-- What stands at the start of a text. -/
def readFound (s : List Char) : Except ReadError Found :=
  match s with
  | [] => .error .endInValue
  | 'n' :: rest => do
    let _ ← readWord ['u', 'l', 'l'] rest
    return .null
  | 't' :: rest => do
    let _ ← readWord ['r', 'u', 'e'] rest
    return .flag true
  | 'f' :: rest => do
    let _ ← readWord ['a', 'l', 's', 'e'] rest
    return .flag false
  | '"' :: rest => do
    let (text, _) ← readString [] rest
    return .text text
  | '[' :: _ => .ok .sequence
  | '\x7b' :: _ => .ok .map
  | c :: _ =>
    if c = '-' ∨ isDigit c then do
      let (value, _) ← readNumeral s
      return value.found
    else .error .expectedValue

/-- The error of a text that starts with a value of another type than the expected one. -/
def wrongStart (expected : String) (s : List Char) : ReadError :=
  match readFound s with
  | .ok found => .wrongType found expected
  | .error e => e

namespace Reader

variable {α β : Type}

/-- Reads with a reader and applies a function. -/
def map (f : α → β) (r : Reader α) : Reader β := fun s =>
  match r s with
  | .ok (x, rest) => .ok (f x, rest)
  | .error e => .error e

/-- Reads a boolean. -/
def flag : Reader Bool := fun s =>
  match skipBlank s with
  | 't' :: rest => do return (true, ← readWord ['r', 'u', 'e'] rest)
  | 'f' :: rest => do return (false, ← readWord ['a', 'l', 's', 'e'] rest)
  | other => .error (wrongStart "a boolean" other)

/-- Reads text. What it is may be named in a message. -/
def named (expected : String) : Reader String := fun s =>
  match skipBlank s with
  | '"' :: rest => readString [] rest
  | other => .error (wrongStart expected other)

/-- Reads text. -/
def text : Reader String :=
  named "a string"

/-- Reads a natural number below a bound that fits 64 bits. -/
def natural (bound : Nat) (type : String) : Reader Nat := fun s =>
  match skipBlank s with
  | [] => .error .endInValue
  | c :: rest =>
    if c = '-' ∨ isDigit c then
      match readNumeral (c :: rest) with
      | .error e => .error e
      | .ok (.floating x, _) => .error (.wrongType (.floating x) type)
      | .ok (.integer n, rest) =>
        if 0 ≤ n ∧ n < bound then .ok (n.toNat, rest)
        else .error (.wrongValue (.integer n) type)
    else .error (wrongStart type (c :: rest))

/-- Reads a number of 32 bits. -/
def word32 : Reader Nat :=
  natural UInt32.size "u32"

/-- Reads a number of 64 bits. -/
def word64 : Reader Nat :=
  natural UInt64.size "u64"

/-- The first number that takes more than 128 bits. -/
def bound128 : Nat := 0x100000000000000000000000000000000

/-- Reads a number of 128 bits. Nothing but digits is looked at. -/
def word128 : Reader Nat := fun s =>
  match skipBlank s with
  | [] => .error .endInValue
  | '-' :: _ => .error .numberOutOfRange
  | s =>
    match Numeral.readWhole s with
    | .error fault => .error fault.error
    | .ok (digits, rest) =>
      if ofDigits digits < bound128 then .ok (ofDigits digits, rest) else .error .numberOutOfRange

/-- Reads a value or `null`. -/
def optional (r : Reader α) : Reader (Option α) := fun s =>
  match skipBlank s with
  | 'n' :: rest => do return (none, ← readWord ['u', 'l', 'l'] rest)
  | other => r.map some other

/-- The value behind a name, one of several. -/
def lookup (choices : List (String × α)) (name : String) : Except ReadError α :=
  match choices.find? fun c => c.1 == name with
  | some (_, x) => .ok x
  | none => .error (.unknownVariant name (choices.map (·.1)))

/-- Reads `null` in the place of a value that says nothing. -/
def nothing : Reader Unit := fun s =>
  match skipBlank s with
  | 'n' :: rest => do return ((), ← readWord ['u', 'l', 'l'] rest)
  | other => .error (wrongStart "unit" other)

/-- Reads one of several names, or an object with the name as its only key and `null` under it. -/
def choice (choices : List (String × α)) : Reader α := fun s =>
  match skipBlank s with
  | [] => .error .endInValue
  | '"' :: rest => do
    let (name, rest) ← readString [] rest
    return (← lookup choices name, rest)
  | '\x7b' :: rest => do
    let (name, rest) ← named "variant identifier" rest
    let x ← lookup choices name
    let (_, rest) ← nothing (← readColon rest)
    match skipBlank rest with
    | [] => .error .endInObject
    | '\x7d' :: rest => .ok (x, rest)
    | _ => .error .expectedValue
  | _ => .error .expectedValue

/-- Reads the elements of a list up to its end, behind those read already. Every turn takes at least
one character. -/
def elements (r : Reader α) : Nat → List α → Reader (List α)
  | 0, _, _ => .error .endInList
  | turns + 1, acc, s => do
    match ← nextElement acc.isEmpty s with
    | .closed rest => return (acc.reverse, rest)
    | .item s =>
      let (x, rest) ← r s
      elements r turns (x :: acc) rest

/-- Reads a list. -/
def list (r : Reader α) : Reader (List α) := fun s =>
  match skipBlank s with
  | '[' :: rest => elements r (rest.length + 1) [] rest
  | other => .error (wrongStart "a sequence" other)

/-- What a list of two is called in messages. -/
def pairName : String :=
  "a tuple of size 2"

/-- Reads an element of a list of two; `before` of them stand in front of it. -/
def component (before : Nat) (r : Reader α) : Reader α := fun s => do
  match ← nextElement (before == 0) s with
  | .closed _ => .error (.wrongLength before pairName)
  | .item s => r s

/-- Reads a list of two. -/
def pair (r : Reader α) (q : Reader β) : Reader (α × β) := fun s =>
  match skipBlank s with
  | '[' :: rest => do
    let (x, rest) ← component 0 r rest
    let (y, rest) ← component 1 q rest
    return ((x, y), ← closeList rest)
  | other => .error (wrongStart pairName other)

end Reader

/-- Reads a text that is one value between blanks. -/
def readText {α : Type} (r : Reader α) (text : String) : Except ReadError α := do
  let (x, rest) ← r text.toList
  match skipBlank rest with
  | [] => return x
  | _ => .error .trailingCharacters

end ShellSale.Json
