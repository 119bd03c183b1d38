/-!
# Punycode

Labels of domain names that are not ASCII are written in ASCII: first their ASCII characters, then
the places of all others. The others come in the order of their code points, each as the number of
steps from the one before, in digits to the base 36 with thresholds that adapt to the numbers seen
so far. Main statement: `length_of_readSteps`, reading a number shortens the text, so that reading
ends.
-/

namespace ShellSale.Punycode

/-- The digit of a value below 36: letters, then figures. -/
def digit (value : Nat) : Char :=
  if value < 26 then Char.ofNat (0x61 + value) else Char.ofNat (0x30 + value - 26)

/-- The value of a digit, in either case. -/
def digitValue? (c : Char) : Option Nat :=
  if c.isLower then some (c.toNat - 0x61)
  else if c.isUpper then some (c.toNat - 0x41)
  else if c.isDigit then some (c.toNat - 0x30 + 26)
  else none

/-- The threshold at a position that counts in steps of 36: digits below it end a number. -/
def threshold (position bias : Nat) : Nat :=
  if position ≤ bias then 1 else if bias + 26 ≤ position then 26 else position - bias

/-- A threshold is a digit that is not zero. -/
theorem threshold_bounds (position bias : Nat) :
    1 ≤ threshold position bias ∧ threshold position bias ≤ 26 := by
  unfold threshold
  split
  · omega
  · split <;> omega

/-- Divides by 35 until the value is small, and counts the divisions in steps of 36. -/
def settle (value count : Nat) : Nat × Nat :=
  if 455 < value then settle (value / 35) (count + 36) else (value, count)
termination_by value
decreasing_by exact Nat.div_lt_self (by omega) (by omega)

/-- The bias after a number was written for one of `points` characters. -/
def adapt (steps points : Nat) (first : Bool) : Nat :=
  let scaled := if first then steps / 700 else steps / 2
  let (value, count) := settle (scaled + scaled / points) 0
  count + 36 * value / (value + 38)

/-- A number of steps in digits. -/
def writeSteps (bias position steps : Nat) : List Char :=
  let t := threshold position bias
  if steps < t then [digit steps]
  else digit (t + (steps - t) % (36 - t)) ::
    writeSteps bias (position + 36) ((steps - t) / (36 - t))
termination_by steps
decreasing_by
  have := threshold_bounds position bias
  exact Nat.lt_of_le_of_lt (Nat.div_le_self _ _) (by omega)

/-- What is known in the middle of a label. -/
structure Progress where
  /-- How many characters are placed. -/
  placed : Nat
  steps : Nat := 0
  bias : Nat := 72
  output : List Char := []

/-- Passes a character of the label while those with one code point are written. -/
def Progress.pass (ascii point : Nat) (p : Progress) (c : Char) : Progress :=
  if c.toNat < point then { p with steps := p.steps + 1 }
  else if c.toNat = point then
    { placed := p.placed + 1
      bias := adapt p.steps (p.placed + 1) (p.placed = ascii)
      output := p.output ++ writeSteps p.bias 36 p.steps }
  else p

/-- Writes the characters with the given code points, from `start` on. -/
def Progress.write (label : List Char) (ascii : Nat) : Nat → List Nat → Progress → Progress
  | _, [], p => p
  | start, point :: rest, p =>
    let p := { p with steps := p.steps + (point - start) * (p.placed + 1) }
    let p := label.foldl (pass ascii point) p
    write label ascii (point + 1) rest { p with steps := p.steps + 1 }

/-- A label in ASCII. -/
def encode (label : List Char) : List Char :=
  let ascii := label.filter fun c => c.toNat < 128
  let points := ((label.map Char.toNat).filter fun n => 128 ≤ n).mergeSort.eraseDups
  let p := Progress.write label ascii.length 128 points { placed := ascii.length }
  (if ascii.isEmpty then [] else ascii ++ ['-']) ++ p.output

/-- Reads a number of steps, and gives what follows it. -/
def readSteps (bias position weight steps : Nat) : List Char → Option (Nat × List Char)
  | [] => none
  | c :: rest => do
    let d ← digitValue? c
    let steps := steps + d * weight
    let t := threshold position bias
    if d < t then some (steps, rest)
    else readSteps bias (position + 36) (weight * (36 - t)) steps rest

/-- Reading a number shortens the text. -/
theorem length_of_readSteps {bias position weight steps n : Nat} {text rest : List Char}
    (h : readSteps bias position weight steps text = some (n, rest)) :
    rest.length < text.length := by
  induction text generalizing position weight steps with
  | nil => simp [readSteps] at h
  | cons c text ih =>
    simp only [readSteps, Option.bind_eq_bind, Option.bind_eq_some_iff] at h
    obtain ⟨d, -, h⟩ := h
    split at h
    · simp only [Option.some.injEq, Prod.mk.injEq] at h
      simp [← h.2]
    · have := ih h
      simp only [List.length_cons]
      omega

/-- Places characters as a text says. The next one has at least the code point `point`, and if it
has just that, it comes at `start` or later. -/
def place (text : List Char) (point start bias : Nat) (label : List Char) :
    Option (List Char) :=
  if text.isEmpty then some label
  else
    match _h : readSteps bias 36 1 0 text with
    | none => none
    | some (steps, rest) =>
      let places := label.length + 1
      let point := point + (start + steps) / places
      let index := (start + steps) % places
      if point.isValidChar then
        place rest point (index + 1) (adapt steps places (start = 0))
          (label.take index ++ Char.ofNat point :: label.drop index)
      else none
termination_by text.length
decreasing_by exact length_of_readSteps _h

/-- The label that a text in ASCII stands for, if it stands for one and in no other way. -/
def decode? (text : List Char) : Option (List Char) := do
  let digits := (text.reverse.takeWhile (· ≠ '-')).reverse
  let label ← place digits 128 0 72 (text.take (text.length - digits.length - 1))
  if encode label = text then some label else none

end ShellSale.Punycode
