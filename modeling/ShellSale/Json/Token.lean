import ShellSale.Json.Numeral
import ShellSale.Json.Text

/-!
# Words, marks and blanks

What values are made of besides strings and numerals, and where the next element of a list or the
next key of an object starts.
-/

namespace ShellSale.Json

/-- Whether a character may stand between tokens. -/
def isBlank (c : Char) : Bool :=
  c = ' ' || c = '\t' || c = '\r' || c = '\n'

/-- The text from its first character that is not blank. -/
def skipBlank (s : List Char) : List Char :=
  s.dropWhile isBlank

/-- What follows the rest of a word. -/
def readWord : List Char → List Char → Except ReadError (List Char)
  | [], s => .ok s
  | _ :: _, [] => .error .endInValue
  | c :: word, d :: s => if c = d then readWord word s else .error .expectedWord

/-- What stands next in a list or an object. -/
inductive Next where
  /-- The closing bracket; the rest follows it. -/
  | closed (rest : List Char)
  /-- An item, which the rest starts with. -/
  | item (rest : List Char)

/-- What stands next in a list that is kept. -/
def nextElement (first : Bool) (s : List Char) : Except ReadError Next :=
  match skipBlank s with
  | [] => .error .endInList
  | ']' :: rest => .ok (.closed rest)
  | c :: rest =>
    if first then .ok (.item (c :: rest))
    else if c = ',' then
      match skipBlank rest with
      | [] => .error .endInValue
      | ']' :: _ => .error .trailingComma
      | next => .ok (.item next)
    else .error .expectedListCommaOrEnd

/-- What stands next in an object that is kept. An item starts behind the quote of its key. -/
def nextKey (first : Bool) (s : List Char) : Except ReadError Next :=
  match skipBlank s with
  | [] => .error .endInObject
  | '\x7d' :: rest => .ok (.closed rest)
  | c :: rest =>
    if first then
      if c = '"' then .ok (.item rest) else .error .keyNotText
    else if c = ',' then
      match skipBlank rest with
      | [] => .error .endInValue
      | '"' :: rest => .ok (.item rest)
      | '\x7d' :: _ => .error .trailingComma
      | _ => .error .keyNotText
    else .error .expectedObjectCommaOrEnd

/-- What follows the colon behind a key. -/
def readColon (s : List Char) : Except ReadError (List Char) :=
  match skipBlank s with
  | [] => .error .endInObject
  | ':' :: rest => .ok rest
  | _ => .error .expectedColon

/-- What follows the bracket that ends a list of known length. -/
def closeList (s : List Char) : Except ReadError (List Char) :=
  match skipBlank s with
  | [] => .error .endInList
  | ']' :: rest => .ok rest
  | ',' :: rest =>
    match skipBlank rest with
    | ']' :: _ => .error .trailingComma
    | _ => .error .trailingCharacters
  | _ => .error .trailingCharacters

end ShellSale.Json
