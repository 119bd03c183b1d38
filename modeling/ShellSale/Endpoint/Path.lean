import ShellSale.Endpoint.Percent

/-!
# Paths

The path of an address has segments, among which one dot stands for the present place and two dots
for the one above. `Path.ofPieces` follows them, so that no dots are left, and encodes what cannot
stand in a path.
-/

namespace ShellSale

namespace Path

/-- What a piece of a path stands for. A dot may be percent-encoded. -/
inductive Meaning where
  | here
  | above
  | segment
deriving DecidableEq

/-- The ways to write a dot. -/
def dots (text : List Char) : Option Nat :=
  match text with
  | [] => some 0
  | '.' :: rest => (dots rest).map (· + 1)
  | '%' :: '2' :: 'e' :: rest => (dots rest).map (· + 1)
  | '%' :: '2' :: 'E' :: rest => (dots rest).map (· + 1)
  | _ => none

/-- What a piece stands for. -/
def meaning (piece : List Char) : Meaning :=
  match dots piece with
  | some 1 => .here
  | some 2 => .above
  | _ => .segment

/-- The letter of a piece that names a drive: a letter and a colon or bar. -/
def drive? : List Char → Option Char
  | [letter, mark] => if letter.isAlpha && (mark == ':' || mark == '|') then some letter else none
  | _ => none

/-- The segments above; a drive at the top of a file's path stays. -/
def shorten (file : Bool) (segments : List (List Char)) : List (List Char) :=
  match segments with
  | [top] => if file && (drive? top).isSome then [top] else []
  | _ => segments.dropLast

/-- A piece as a segment behind others. The drive of a file's path is written with a colon. -/
def segment (file : Bool) (before : List (List Char)) (piece : List Char) : List Char :=
  match file, before, drive? piece with
  | true, [], some letter => [letter, ':']
  | _, _, _ => Percent.encode Percent.pathSet piece

/-- Follows pieces from a place. Dots at the end leave an empty segment. -/
def follow (file : Bool) (place : List (List Char)) : List (List Char) → List (List Char)
  | [] => place
  | piece :: rest =>
    match meaning piece with
    | .here => follow file (if rest.isEmpty then place ++ [[]] else place) rest
    | .above =>
      let above := shorten file place
      follow file (if rest.isEmpty then above ++ [[]] else above) rest
    | .segment => follow file (place ++ [segment file place piece]) rest

/-- The segments that pieces lead to. The path of a file has no empty segments at its start. -/
def ofPieces (file : Bool) (pieces : List (List Char)) : List (List Char) :=
  let segments := follow file [] pieces
  if file then
    match segments.dropWhile List.isEmpty with
    | [] => [[]]
    | rest => rest
  else segments

end Path

end ShellSale
