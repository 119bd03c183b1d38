import ShellSale.Text.Decimal
import ShellSale.Text.Quoted

/-!
# Errors of reading JSON

A text is read in one pass, so the first problem in it is the one that is reported. Problems are of
three kinds: the text is not JSON, it ends too early, or a value is not what its place asks for.
-/

namespace ShellSale.Json

/-- A value that is not what its place asks for, as far as a message shows it. -/
inductive Found where
  | null
  | flag (b : Bool)
  | integer (n : Int)
  | floating (x : Float)
  | text (s : String)
  | sequence
  | map

/-- The value in words. -/
def Found.words : Found → String
  | null => "null"
  | flag true => "boolean `true`"
  | flag false => "boolean `false`"
  | integer n => "integer `" ++ toString n ++ "`"
  | floating x => "floating point `" ++ Text.double x ++ "`"
  | text s => "string " ++ Text.quoted s
  | sequence => "sequence"
  | map => "map"

/-- Why a text cannot be read. -/
inductive ReadError where
  /-- The text ends inside a list. -/
  | endInList
  /-- The text ends inside an object. -/
  | endInObject
  /-- The text ends inside a string. -/
  | endInString
  /-- The text ends where a value has to stand. -/
  | endInValue
  | expectedColon
  | expectedListCommaOrEnd
  | expectedObjectCommaOrEnd
  | expectedWord
  | expectedValue
  | invalidEscape
  | invalidNumber
  | numberOutOfRange
  | loneSurrogate
  | unpairedSurrogate
  | controlCharacter
  | keyNotText
  | trailingComma
  | trailingCharacters
  /-- A value of the wrong type. -/
  | wrongType (found : Found) (expected : String)
  /-- A value of the right type but out of its bounds. -/
  | wrongValue (found : Found) (expected : String)
  /-- A list that ends too early. -/
  | wrongLength (length : Nat) (expected : String)
  | unknownVariant (name : String) (known : List String)
  | missingField (name : String)
  | duplicateField (name : String)

/-- The kinds of problems. -/
inductive ReadError.Category where
  | grammar
  | content
  | truncation
deriving DecidableEq

namespace ReadError

/-- The kind of a problem. -/
def category : ReadError → Category
  | endInList | endInObject | endInString | endInValue => .truncation
  | wrongType .. | wrongValue .. | wrongLength .. | unknownVariant .. | missingField _ |
    duplicateField _ => .content
  | _ => .grammar

/-- A name in a message. -/
def marked (name : String) : String :=
  "`" ++ name ++ "`"

/-- What to expect among some names. -/
def alternatives : List String → String
  | [] => "there are no variants"
  | [a] => "expected " ++ marked a
  | [a, b] => "expected " ++ marked a ++ " or " ++ marked b
  | names => "expected one of " ++ ", ".intercalate (names.map marked)

/-- The problem in words. -/
def message : ReadError → String
  | endInList => "EOF while parsing a list"
  | endInObject => "EOF while parsing an object"
  | endInString => "EOF while parsing a string"
  | endInValue => "EOF while parsing a value"
  | expectedColon => "expected `:`"
  | expectedListCommaOrEnd => "expected `,` or `]`"
  | expectedObjectCommaOrEnd => "expected `,` or `\x7d`"
  | expectedWord => "expected ident"
  | expectedValue => "expected value"
  | invalidEscape => "invalid escape"
  | invalidNumber => "invalid number"
  | numberOutOfRange => "number out of range"
  | loneSurrogate => "lone leading surrogate in hex escape"
  | unpairedSurrogate => "unexpected end of hex escape"
  | controlCharacter => "control character (\\u0000-\\u001F) found while parsing a string"
  | keyNotText => "key must be a string"
  | trailingComma => "trailing comma"
  | trailingCharacters => "trailing characters"
  | wrongType found expected => "invalid type: " ++ found.words ++ ", expected " ++ expected
  | wrongValue found expected => "invalid value: " ++ found.words ++ ", expected " ++ expected
  | wrongLength length expected =>
    "invalid length " ++ toString length ++ ", expected " ++ expected
  | unknownVariant name known =>
    "unknown variant " ++ marked name ++ ", " ++ alternatives known
  | missingField name => "missing field " ++ marked name
  | duplicateField name => "duplicate field " ++ marked name

end ReadError

end ShellSale.Json
