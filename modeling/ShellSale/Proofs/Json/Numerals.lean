import ShellSale.Proofs.Json.Tree

/-!
## Reading numerals

A numeral is read up to its end, which is where its characters end if the text goes on as it may
behind a value. The natural numbers are those numerals that have neither a sign nor a fraction nor
an exponent, and each is written in one way.

* `Literal.read_text`: what is read of a numeral.
* `Literal.text_eq_iff`: how a natural number is written.
-/

namespace ShellSale.Json

/-! ### Digits -/

/-- Whether a text goes on with something else than a digit. -/
def NoDigit (s : List Char) : Prop :=
  ∀ c ∈ s.head?, isDigit c = false

theorem noDigit_of_ends {s : List Char} (h : Ends s) : NoDigit s := by
  intro c head
  obtain ⟨t, rfl⟩ := List.head?_eq_some_iff.mp head
  cases digit : isDigit c with
  | false => rfl
  | true =>
    have opens := opens_of_numeral (Or.inr digit)
    rcases h with blank | comma | list | object
    · exact absurd blank (by rw [opens.blank]; exact Bool.false_ne_true)
    · exact absurd comma opens.comma
    · exact absurd list opens.list
    · exact absurd object opens.object

theorem ne_of_ends {c : Char} {s : List Char} (h : Ends (c :: s)) :
    c ≠ '.' ∧ c ≠ 'e' ∧ c ≠ 'E' := by
  refine ⟨?_, ?_, ?_⟩ <;>
    · rintro rfl
      simp [Ends, isBlank] at h

theorem leadingDigits_text (digits : Digits) {rest : List Char} (h : NoDigit rest) :
    leadingDigits (digits.val ++ rest) = (digits.val.map digitValue, rest) := by
  have all := digits.property.2
  have stops : rest.takeWhile isDigit = [] ∧ rest.dropWhile isDigit = rest := by
    cases rest with
    | nil => exact ⟨rfl, rfl⟩
    | cons c s =>
      have other := h c rfl
      simp [other]
  rw [leadingDigits, List.takeWhile_append_of_pos all, List.dropWhile_append_of_pos all, stops.1,
    stops.2, List.append_nil]

theorem someDigits_text (digits : Digits) {rest : List Char} (h : NoDigit rest) :
    Numeral.someDigits (digits.val ++ rest) = .ok (digits.val.map digitValue, rest) := by
  rw [Numeral.someDigits, leadingDigits_text digits h]
  obtain ⟨s, some, -⟩ := digits
  cases s with
  | nil => exact absurd rfl some
  | cons c s => rfl

theorem isDigit_iff {c : Char} : isDigit c = true ↔ 48 ≤ c.toNat ∧ c.toNat ≤ 57 := by
  simp only [isDigit, Bool.and_eq_true, decide_eq_true_eq, Char.le_def, UInt32.le_iff_toNat_le]
  exact Iff.rfl

theorem eq_zero_of_digitValue {c : Char} (digit : isDigit c = true) (zero : digitValue c = 0) :
    c = '0' := by
  rw [isDigit_iff] at digit
  rw [digitValue] at zero
  exact Char.toNat_inj.mp (show c.toNat = 48 by omega)

/-! ### Numerals -/

namespace Literal

variable {rest : List Char}

/-- A numeral without its text. -/
def numeral (l : Literal) : Numeral where
  negative := l.negative
  whole := l.whole.val.map digitValue
  fraction := l.fraction.map fun digits => digits.val.map digitValue
  exponent := l.exponent.map fun e => (e.sign = ['-'], ofDigits (e.digits.val.map digitValue))

/-- The text behind the whole part. -/
def tail (l : Literal) : List Char :=
  (l.fraction.elim [] fun digits => '.' :: digits.val) ++ l.exponent.elim [] Exponent.text

theorem readWhole_text (l : Literal) (h : NoDigit rest) :
    Numeral.readWhole (l.whole.val ++ rest) = .ok (l.whole.val.map digitValue, rest) := by
  rw [Numeral.readWhole, someDigits_text l.whole h]
  split
  · rename_i d digits s eq
    have whole : l.whole.val.map digitValue = 0 :: d :: digits :=
      congrArg Prod.fst (Except.ok.inj eq)
    obtain ⟨c, cs, written, zero, more⟩ := List.map_eq_cons_iff.mp whole
    have digit := l.whole.property.2 c (written ▸ List.mem_cons_self)
    obtain rfl := eq_zero_of_digitValue digit zero
    have alone := l.canonical (by rw [written]; rfl)
    rw [written] at alone
    obtain rfl := (List.cons.inj alone).2
    cases more
  · rfl

theorem readMinus_text (l : Literal) (rest : List Char) :
    Numeral.readMinus (l.text ++ rest) = (l.negative, l.whole.val ++ (l.tail ++ rest)) := by
  rw [text, tail]
  obtain ⟨negative, ⟨digits, some, all⟩, canonical, fraction, exponent⟩ := l
  cases negative with
  | true => simp [Numeral.readMinus]
  | false =>
    cases digits with
    | nil => exact absurd rfl some
    | cons c s =>
      have other := ne_of_isDigit (all c List.mem_cons_self) (show isDigit '-' = false from rfl)
      simp [Numeral.readMinus, other]

theorem readSign_text (e : Exponent) (rest : List Char) :
    Numeral.readSign (e.sign ++ (e.digits.val ++ rest)) =
      (decide (e.sign = ['-']), e.digits.val ++ rest) := by
  obtain ⟨mark, isMark, sign, isSign, ⟨digits, some, all⟩⟩ := e
  rcases isSign with rfl | rfl | rfl
  · cases digits with
    | nil => exact absurd rfl some
    | cons c s =>
      have digit := all c List.mem_cons_self
      have plus := ne_of_isDigit digit (show isDigit '+' = false from rfl)
      have minus := ne_of_isDigit digit (show isDigit '-' = false from rfl)
      simp [Numeral.readSign, plus, minus]
  · simp [Numeral.readSign]
  · simp [Numeral.readSign]

theorem readExponent_text (l : Literal) (h : Ends rest) :
    Numeral.readExponent (l.exponent.elim [] Exponent.text ++ rest) =
      .ok (l.numeral.exponent, rest) := by
  rw [numeral]
  cases l.exponent with
  | none =>
    cases rest with
    | nil => rfl
    | cons c s =>
      obtain ⟨-, lower, upper⟩ := ne_of_ends h
      simp [Numeral.readExponent, lower, upper]
  | some e =>
    have digits := someDigits_text e.digits (noDigit_of_ends h)
    rcases e.isMark with mark | mark <;>
      simp [Numeral.readExponent, Exponent.text, mark, readSign_text, digits]

theorem noDigit_exponent (l : Literal) (h : Ends rest) :
    NoDigit (l.exponent.elim [] Exponent.text ++ rest) := by
  cases l.exponent with
  | none => exact noDigit_of_ends h
  | some e =>
    rintro _ ⟨⟩
    rcases e.isMark with mark | mark <;>
      · rw [mark]
        rfl

theorem readFraction_text (l : Literal) (h : Ends rest) :
    Numeral.readFraction (l.tail ++ rest) =
      .ok (l.numeral.fraction, l.exponent.elim [] Exponent.text ++ rest) := by
  have digits := fun s => someDigits_text s (l.noDigit_exponent h)
  rw [numeral, tail]
  cases l.fraction with
  | some s => simp [Numeral.readFraction, digits]
  | none =>
    cases l.exponent with
    | some e =>
      rcases e.isMark with mark | mark <;> simp [Numeral.readFraction, Exponent.text, mark]
    | none =>
      cases rest with
      | nil => rfl
      | cons c s =>
        obtain ⟨point, -⟩ := ne_of_ends h
        simp [Numeral.readFraction, point]

theorem noDigit_tail (l : Literal) (h : Ends rest) : NoDigit (l.tail ++ rest) := by
  have exponent := l.noDigit_exponent h
  rw [tail]
  cases l.fraction with
  | none => exact exponent
  | some s =>
    rintro _ ⟨⟩
    rfl

/-- **Reading a numeral** ends behind it. -/
theorem read_text (l : Literal) (h : Ends rest) :
    Numeral.read (l.text ++ rest) = .ok (l.numeral, rest) := by
  rw [Numeral.read, readMinus_text]
  simp only [bind, Except.bind, l.readWhole_text (l.noDigit_tail h), l.readFraction_text h,
    l.readExponent_text h]
  rfl

/-! ### Natural numbers -/

/-- The number of the whole part of a numeral. -/
def size (l : Literal) : Nat :=
  ofDigits l.numeral.whole

/-- Whether a numeral has neither a sign nor a fraction nor an exponent. -/
def IsWhole (l : Literal) : Prop :=
  l.negative = false ∧ l.fraction = none ∧ l.exponent = none

theorem size_eq (l : Literal) : l.size = Nat.ofDigitChars 10 l.whole.val 0 := by
  rw [Nat.ofDigitChars_eq_foldl, size, numeral, ofDigits, List.foldl_map]
  rfl

theorem text_of_isWhole {l : Literal} (h : l.IsWhole) : l.text = l.whole.val := by
  obtain ⟨positive, fraction, exponent⟩ := h
  rw [text, positive, fraction, exponent]
  simp

theorem digitChar_digitValue {c : Char} (digit : isDigit c = true) :
    Nat.digitChar (digitValue c) = c := by
  have all : ∀ n < 10, Nat.digitChar n = Char.ofNat (48 + n) := by decide
  rw [isDigit_iff] at digit
  rw [digitValue, all _ (by omega), show 48 + (c.toNat - 48) = c.toNat by omega, Char.ofNat_toNat]

/-- Digits without needless zeros are those of their number. -/
theorem toDigits_ofDigitChars {digits : List Char} (nonempty : digits ≠ [])
    (all : ∀ c ∈ digits, isDigit c = true)
    (canonical : digits.head? = some '0' → digits = ['0']) :
    Nat.toDigits 10 (Nat.ofDigitChars 10 digits 0) = digits := by
  -- the digits of a number are those of its tenth and one more, so the last digit is split off
  induction n : digits.length generalizing digits with
  | zero => exact absurd (List.eq_nil_of_length_eq_zero n) nonempty
  | succ n ih =>
    obtain ⟨front, c, rfl⟩ : ∃ front c, digits = front ++ [c] :=
      ⟨_, _, (List.dropLast_concat_getLast nonempty).symm⟩
    have digit := all c (by simp)
    have small : digitValue c < 10 := by
      rw [isDigit_iff] at digit
      rw [digitValue]
      omega
    have value : Nat.ofDigitChars 10 (front ++ [c]) 0 =
        10 * Nat.ofDigitChars 10 front 0 + digitValue c := by
      rw [Nat.ofDigitChars_append, Nat.ofDigitChars_cons, Nat.ofDigitChars_nil]
      rfl
    have last : Nat.toDigits 10 (digitValue c) = [c] := by
      rw [Nat.toDigits_of_lt_base small, digitChar_digitValue digit]
    by_cases single : front = []
    · subst single
      rw [value, Nat.ofDigitChars_nil, Nat.mul_zero, Nat.zero_add, last, List.nil_append]
    -- a numeral of several digits does not begin with a zero, so what stands in front of the last
    -- digit is not zero
    · have first : front.head? ≠ some '0' := by
        intro zero
        have alone := congrArg List.length (canonical (by rw [List.head?_append, zero]; rfl))
        simp [single] at alone
      have whole := ih single (fun d mem => all d (List.mem_append_left _ mem))
        (fun zero => absurd zero first) (by simpa using n)
      have positive : 0 < Nat.ofDigitChars 10 front 0 := by
        refine Nat.pos_of_ne_zero fun zero => first ?_
        rw [zero, Nat.toDigits_zero] at whole
        rw [← whole]
        rfl
      rw [value, ← Nat.toDigits_append_toDigits (by decide) positive small, whole, last]

theorem isDigit_of_mem_toDigits {n : Nat} {c : Char} (h : c ∈ Nat.toDigits 10 n) :
    isDigit c = true := by
  have digit := Nat.isDigit_of_mem_toDigits (by decide) (by decide) h
  simp only [Char.isDigit, Bool.and_eq_true, decide_eq_true_eq, ge_iff_le,
    UInt32.le_iff_toNat_le] at digit
  rw [isDigit_iff]
  exact digit

/-- **How a natural number is written**: as its decimal digits. -/
theorem text_eq_iff (l : Literal) (n : Nat) :
    l.text = Nat.toDigits 10 n ↔ l.IsWhole ∧ l.size = n := by
  constructor
  · intro eq
    have digits : ∀ c ∈ l.text, isDigit c = true := fun c mem =>
      isDigit_of_mem_toDigits (eq ▸ mem)
    have whole : l.IsWhole := by
      refine ⟨Bool.eq_false_iff.mpr fun negative => ?_, Option.eq_none_iff_forall_ne_some.mpr
        fun s fraction => ?_, Option.eq_none_iff_forall_ne_some.mpr fun e exponent => ?_⟩
      · have sign := digits '-' (by simp [text, negative])
        cases sign
      · have point := digits '.' (by simp [text, fraction])
        cases point
      · have mark := digits e.mark (by simp [text, exponent, Exponent.text])
        rcases e.isMark with letter | letter <;>
          · rw [letter] at mark
            cases mark
    rw [text_of_isWhole whole] at eq
    exact ⟨whole, by rw [size_eq, eq, Nat.ofDigitChars_ten_toDigits]⟩
  · rintro ⟨whole, rfl⟩
    rw [text_of_isWhole whole, size_eq,
      toDigits_ofDigitChars l.whole.property.1 l.whole.property.2 l.canonical]

end Literal

end ShellSale.Json
