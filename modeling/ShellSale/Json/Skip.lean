import ShellSale.Json.Token

/-!
# Skipping values

The value of a field that nobody knows is skipped. It still has to be JSON, but may be nested to
any depth: the brackets that are open stand on a stack, so skipping is a loop and not a recursion.
-/

namespace ShellSale.Json

/-- An opened bracket. -/
inductive Bracket where
  | list
  | object
deriving DecidableEq

/-- What follows a scalar that is skipped. -/
def skipScalar (s : List Char) : Except ReadError (List Char) :=
  match s with
  | 'n' :: rest => readWord ['u', 'l', 'l'] rest
  | 't' :: rest => readWord ['r', 'u', 'e'] rest
  | 'f' :: rest => readWord ['a', 'l', 's', 'e'] rest
  | '"' :: rest => skipString rest
  | c :: _ =>
    if c = '-' ∨ isDigit c then
      match Numeral.read s with
      | .ok (_, rest) => .ok rest
      | .error _ => .error .invalidNumber
    else .error .expectedValue
  | [] => .error .endInValue

/-- What follows the key and the colon of a member that is skipped. -/
def skipKey (s : List Char) : Except ReadError (List Char) :=
  match skipBlank s with
  | [] => .error .endInObject
  | '"' :: rest => do
    let rest ← skipString rest
    readColon rest
  | _ => .error .keyNotText

/-- What follows the place before a value inside a bracket: behind the key, if there is one. -/
def skipToValue : Bracket → List Char → Except ReadError (List Char)
  | .list, s => .ok s
  | .object, s => skipKey s

/-- What a bracket lacks if the text ends in it. -/
def Bracket.endFault : Bracket → ReadError
  | list => .endInList
  | object => .endInObject

/-- What is wrong if neither a comma nor the end of a bracket follows a value in it. -/
def Bracket.commaFault : Bracket → ReadError
  | list => .expectedListCommaOrEnd
  | object => .expectedObjectCommaOrEnd

/-- Whether a character closes a bracket. -/
def Bracket.isClosedBy : Bracket → Char → Bool
  | list, c => c = ']'
  | object, c => c = '\x7d'

/-- Where skipping stands in a text. -/
structure SkipState where
  /-- Whether a value is expected next; otherwise one has just ended. -/
  wanting : Bool
  /-- The brackets that are open, innermost first. -/
  opened : List Bracket
  rest : List Char

namespace SkipState

/-- Goes on behind an opening bracket. -/
def enter (b : Bracket) (opened : List Bracket) (s : List Char) : Except ReadError SkipState :=
  match skipBlank s with
  | [] => .error b.endFault
  | c :: rest =>
    if b.isClosedBy c then .ok ⟨false, opened, rest⟩
    else do return ⟨true, b :: opened, ← skipToValue b (c :: rest)⟩

/-- Starts a value. -/
def startValue (opened : List Bracket) (s : List Char) : Except ReadError SkipState :=
  match skipBlank s with
  | [] => .error .endInValue
  | '[' :: rest => enter .list opened rest
  | '\x7b' :: rest => enter .object opened rest
  | s => do return ⟨false, opened, ← skipScalar s⟩

/-- Goes on behind a value inside a bracket. -/
def endValue (b : Bracket) (opened : List Bracket) (s : List Char) : Except ReadError SkipState :=
  match skipBlank s with
  | [] => .error b.endFault
  | c :: rest =>
    if c = ',' then do return ⟨true, b :: opened, ← skipToValue b rest⟩
    else if b.isClosedBy c then .ok ⟨false, opened, rest⟩
    else .error b.commaFault

/-- Skips to the end of the outermost value. Every turn takes at least one character. -/
def run : Nat → SkipState → Except ReadError (List Char)
  | _, ⟨false, [], s⟩ => .ok s
  | 0, _ => .error .endInValue
  | turns + 1, ⟨true, opened, s⟩ => do run turns (← startValue opened s)
  | turns + 1, ⟨false, b :: opened, s⟩ => do run turns (← endValue b opened s)

end SkipState

/-- What follows a value that is skipped. -/
def skipValue (s : List Char) : Except ReadError (List Char) :=
  SkipState.run s.length ⟨true, [], s⟩

end ShellSale.Json
