import Mathlib.Data.List.Forall2
import ShellSale.Json.Reader
import ShellSale.Proofs.Json.Skipping

/-!
## Formats and their readers

A format says which values of JSON write which values of a type, without regard to how they are
read. A reader reads a format if of all well-formed values it takes just those that the format
writes, for what they write; it refuses every other one, or stops inside it where nothing goes on.

* `Format.ReadBy`: what a reader of a format does.
* `readBy_natural`, `readBy_text`, `readBy_list` and their like: the readers of values that are no
  records read their formats.
* `readText_iff`: what is read of a whole text.
-/

namespace ShellSale.Json

/-- What may be wrong somewhere inside a value. -/
inductive Fault where
  /-- A record has a field twice. -/
  | repeated (record field : String)
  /-- A record that has to be complete lacks a field. -/
  | missing (record field : String)
  /-- A number is above the largest one of its type. -/
  | tooLarge (n : Nat)

/-- A way to write the values of a type. -/
structure Format (α : Type) where
  /-- Which values are written by which. -/
  writes : α → Tree → Prop
  /-- Which faults a value has, in a place that the format looks at. -/
  spoils : Fault → Tree → Prop
  unwritten : ∀ {fault t}, spoils fault t → ∀ x, ¬writes x t

/-- Whether a reader reads a format. -/
def Format.ReadBy {α : Type} (F : Format α) (r : Reader α) : Prop :=
  ∀ (t : Tree) (b : Blanks) (rest : List Char), Ends rest → ∀ x s,
    r (b.val ++ (t.text ++ rest)) = .ok (x, s) ∧ Ends s ↔ F.writes x t ∧ s = rest

section

variable {α β ε : Type}

theorem bind_eq_ok_iff {x : Except ε α} {f : α → Except ε β} {y : β} :
    (x >>= f) = .ok y ↔ ∃ a, x = .ok a ∧ f a = .ok y := by
  cases x with
  | error e => exact iff_of_false (fun h => by cases h) fun ⟨_, h, _⟩ => by cases h
  | ok a => exact ⟨fun h => ⟨a, rfl, h⟩, fun ⟨_, h, go⟩ => Except.ok.inj h ▸ go⟩

theorem map_eq_ok_iff {f : α → β} {r : Reader α} {s rest : List Char} {y : β} :
    r.map f s = .ok (y, rest) ↔ ∃ x, r s = .ok (x, rest) ∧ f x = y := by
  rw [Reader.map]
  cases r s with
  | error e => simp
  | ok p => simp [and_comm, Prod.ext_iff]

namespace Format

variable {F : Format α} {r : Reader α} {t : Tree} {rest : List Char}

/-- A reader reads a format if it takes what is written, and nothing else to its end. -/
theorem readBy_of (reads : ∀ {t : Tree} {x : α}, F.writes x t → ∀ (b : Blanks) {rest : List Char},
      Ends rest → r (b.val ++ (t.text ++ rest)) = .ok (x, rest))
    (only : ∀ {t : Tree} {b : Blanks} {rest : List Char} {x : α} {s : List Char}, Ends rest →
      r (b.val ++ (t.text ++ rest)) = .ok (x, s) → Ends s → F.writes x t ∧ s = rest) :
    F.ReadBy r :=
  fun t b rest ends x s => ⟨fun ⟨read, behind⟩ => only ends read behind, by
    rintro ⟨written, rfl⟩
    exact ⟨reads written b ends, ends⟩⟩

namespace ReadBy

/-- Blanks in front of a value may be left out. -/
theorem read_iff (h : F.ReadBy r) (t : Tree) (ends : Ends rest) (x : α) (s : List Char) :
    r (t.text ++ rest) = .ok (x, s) ∧ Ends s ↔ F.writes x t ∧ s = rest :=
  h t .none rest ends x s

theorem reads (h : F.ReadBy r) {x : α} (written : F.writes x t) (b : Blanks) (ends : Ends rest) :
    r (b.val ++ (t.text ++ rest)) = .ok (x, rest) :=
  ((h t b rest ends x rest).mpr ⟨written, rfl⟩).1

/-- A value writes at most one value. -/
theorem unique (h : F.ReadBy r) {x y : α} (hx : F.writes x t) (hy : F.writes y t) : x = y := by
  have ends : Ends [] := trivial
  have first := h.reads hx .none ends
  have second := h.reads hy .none ends
  exact congrArg Prod.fst (Except.ok.inj (first.symm.trans second))

end ReadBy

/-! ### Words -/

/-- A boolean is written by its word. -/
def flag : Format Bool where
  writes x t := t = .flag x
  spoils _ _ := False
  unwritten h := h.elim

theorem readBy_flag : flag.ReadBy .flag := by
  refine readBy_of ?_ ?_
  · rintro _ x rfl b rest ends
    rw [Reader.flag, Tree.skipBlank_text]
    cases x <;> rfl
  · intro t b rest x s ends read _
    rw [Reader.flag, Tree.skipBlank_text] at read
    split at read
    · rename_i after eq
      obtain rfl := Tree.eq_flag_of_append eq (Or.inl rfl)
      obtain rfl : 'r' :: 'u' :: 'e' :: rest = after := (List.cons.inj eq).2
      cases read
      exact ⟨rfl, rfl⟩
    · rename_i after eq
      obtain rfl := Tree.eq_flag_of_append eq (Or.inr rfl)
      obtain rfl : 'a' :: 'l' :: 's' :: 'e' :: rest = after := (List.cons.inj eq).2
      cases read
      exact ⟨rfl, rfl⟩
    · cases read

/-- Nothing is written by `null`. -/
def nothing : Format Unit where
  writes _ t := t = .null
  spoils _ _ := False
  unwritten h := h.elim

theorem readBy_nothing : nothing.ReadBy .nothing := by
  refine readBy_of ?_ ?_
  · rintro _ x rfl b rest ends
    rw [Reader.nothing, Tree.skipBlank_text]
    rfl
  · intro t b rest x s ends read _
    rw [Reader.nothing, Tree.skipBlank_text] at read
    split at read
    · rename_i after eq
      obtain rfl := Tree.eq_null_of_append eq
      obtain rfl : 'u' :: 'l' :: 'l' :: rest = after := (List.cons.inj eq).2
      cases read
      exact ⟨rfl, rfl⟩
    · cases read

/-! ### Strings -/

end Format

/-- Whether a value is a string that spells a text. -/
def Tree.IsText (t : Tree) (text : String) : Prop :=
  ∃ pieces, t = .string pieces ∧ Spells pieces text.toList

theorem named_append (expected : String) (b : Blanks) (s : List Char) :
    Reader.named expected (b.val ++ s) = Reader.named expected s := by
  rw [Reader.named, Reader.named, skipBlank_append]

theorem named_iff (expected : String) (pieces : List Piece) (rest : List Char) (x : String)
    (s : List Char) : Reader.named expected ('"' :: (stringText pieces ++ rest)) = .ok (x, s) ↔
      Spells pieces x.toList ∧ s = rest := by
  rw [Reader.named, skipBlank_of_not_blank rfl]
  exact readString_text_iff pieces rest x s

namespace Format

/-- Text is written by a string. -/
def text : Format String where
  writes x t := t.IsText x
  spoils _ _ := False
  unwritten h := h.elim

theorem readBy_text : text.ReadBy .text := by
  refine readBy_of ?_ ?_
  · rintro _ x ⟨pieces, rfl, spells⟩ b rest ends
    rw [Reader.text, named_append]
    exact (named_iff _ pieces rest x rest).mpr ⟨spells, rfl⟩
  · intro t b rest x s ends read _
    have start := read
    rw [Reader.text, Reader.named, Tree.skipBlank_text] at start
    rw [Reader.text, named_append] at read
    split at start
    · rename_i after eq
      obtain ⟨pieces, rfl⟩ := Tree.eq_string_of_append eq
      obtain ⟨spells, rfl⟩ := (named_iff _ pieces rest x s).mp read
      exact ⟨⟨pieces, rfl, spells⟩, rfl⟩
    · cases start

/-! ### Numbers -/

end Format

/-- Whether a value is a natural number in plain decimal digits. -/
def Tree.Counts (t : Tree) (n : Nat) : Prop :=
  ∃ l, t = .number l ∧ l.text = Nat.toDigits 10 n

theorem Tree.Counts.unique {t : Tree} {m n : Nat} (hm : t.Counts m) (hn : t.Counts n) : m = n := by
  obtain ⟨l, rfl, digits⟩ := hm
  obtain ⟨_, ⟨⟩, digits'⟩ := hn
  exact (((l.text_eq_iff m).mp digits).2).symm.trans ((l.text_eq_iff n).mp digits').2

namespace Format

/-- A natural number below a bound is written in decimal. -/
def natural (bound : Nat) : Format Nat where
  writes n t := n < bound ∧ t.Counts n
  spoils fault t := ∃ n, fault = .tooLarge n ∧ bound ≤ n ∧ t.Counts n
  unwritten := by
    rintro fault t ⟨n, -, large, counts⟩ m ⟨small, counts'⟩
    obtain rfl := counts.unique counts'
    exact absurd small (Nat.not_lt.mpr large)

/-- A number of 32 bits. -/
def word32 : Format Nat :=
  natural UInt32.size

/-- A number of 64 bits. -/
def word64 : Format Nat :=
  natural UInt64.size

/-- A number of 128 bits. -/
def word128 : Format Nat :=
  natural Reader.bound128

end Format

theorem value_of_isWhole {l : Literal} (whole : l.IsWhole) (small : l.size < UInt64.size) :
    l.numeral.value = .ok (.integer l.size) := by
  obtain ⟨positive, fraction, exponent⟩ := whole
  rw [Literal.size] at small ⊢
  simp only [Numeral.value, Literal.numeral, positive, fraction, exponent, Option.map_none]
    at small ⊢
  rw [if_neg Bool.false_ne_true, if_pos small]

/-- Of the numerals with a fraction, an exponent or a sign, none is a natural number. -/
theorem isWhole_of_value {l : Literal} {n : Int} (value : l.numeral.value = .ok (.integer n))
    (positive : 0 ≤ n) : l.IsWhole ∧ n = l.size ∧ l.size < UInt64.size := by
  rw [Numeral.value] at value
  split at value
  · rename_i fraction exponent
    rw [Literal.numeral, Option.map_eq_none_iff] at fraction exponent
    split at value
    · split at value
      · rename_i sized
        have negative := Numeral.Value.integer.inj (Except.ok.inj value)
        omega
      · split at value <;> cases value
    · rename_i unsigned
      split at value
      · rename_i small
        have size := Numeral.Value.integer.inj (Except.ok.inj value)
        exact ⟨⟨Bool.eq_false_iff.mpr unsigned, fraction, exponent⟩, size.symm, small⟩
      · split at value <;> cases value
  · split at value <;> cases value

theorem readNumeral_iff (l : Literal) {rest : List Char} (ends : Ends rest) (v : Numeral.Value)
    (s : List Char) : readNumeral (l.text ++ rest) = .ok (v, s) ↔
      l.numeral.value = .ok v ∧ s = rest := by
  rw [readNumeral, l.read_text ends]
  simp only
  cases l.numeral.value <;> simp [eq_comm]

namespace Format

theorem readBy_natural {bound : Nat} (small : bound ≤ UInt64.size) (type : String) :
    (natural bound).ReadBy (.natural bound type) := by
  refine readBy_of ?_ ?_
  -- what is written is read: a whole numeral below the bound is an integer within it
  · rintro _ n ⟨below, l, rfl, digits⟩ b rest ends
    obtain ⟨whole, rfl⟩ := (l.text_eq_iff n).mp digits
    have value := value_of_isWhole whole (Nat.lt_of_lt_of_le below small)
    have read := (readNumeral_iff l ends _ rest).mpr ⟨value, rfl⟩
    obtain ⟨c, s, eq, numeral⟩ := l.exists_cons
    rw [Reader.natural, Tree.skipBlank_text, Tree.text]
    rw [eq, List.cons_append] at read ⊢
    have inside : (0 : Int) ≤ l.size ∧ (l.size : Int) < bound := by omega
    simp only [numeral, if_true, read, inside, and_self, Int.toNat_natCast]
  -- what is read was written: only a number begins like a numeral, and only one without fraction
  -- and exponent has an integer for its value
  · intro t b rest n s ends read _
    rw [Reader.natural, Tree.skipBlank_text] at read
    split at read
    · cases read
    · rename_i c after eq
      split at read
      · rename_i numeral
        obtain ⟨l, rfl⟩ := Tree.eq_number_of_append eq numeral
        rw [← eq, Tree.text] at read
        cases parsed : readNumeral (l.text ++ rest) with
        | error e =>
          rw [parsed] at read
          cases read
        | ok result =>
          obtain ⟨v, after⟩ := result
          obtain ⟨value, rfl⟩ := (readNumeral_iff l ends v after).mp parsed
          rw [parsed] at read
          cases v with
          | floating x => cases read
          | integer k =>
            simp only at read
            split at read
            · rename_i inside
              obtain ⟨whole, size, -⟩ := isWhole_of_value value inside.1
              obtain ⟨rfl, rfl⟩ := Prod.mk.inj (Except.ok.inj read)
              subst size
              rw [Int.toNat_natCast]
              exact ⟨⟨by omega, l, rfl, (l.text_eq_iff _).mpr ⟨whole, rfl⟩⟩, rfl⟩
            · cases read
      · cases read

theorem readBy_word32 : word32.ReadBy .word32 :=
  readBy_natural (by decide) "u32"

theorem readBy_word64 : word64.ReadBy .word64 :=
  readBy_natural (Nat.le_refl _) "u64"

/-- The text behind the whole part of a numeral goes on as behind a value only if there is none. -/
theorem ends_tail_iff (l : Literal) {rest : List Char} (ends : Ends rest) :
    Ends (l.tail ++ rest) ↔ l.fraction = none ∧ l.exponent = none := by
  rw [Literal.tail]
  cases l.fraction with
  | some digits => simp [Ends, isBlank]
  | none =>
    cases l.exponent with
    | some e =>
      rcases e.isMark with mark | mark <;> simp [Exponent.text, mark, Ends, isBlank]
    | none => simpa using ends

theorem readWhole_of_not_digit {c : Char} (other : isDigit c = false) (s : List Char) :
    Numeral.readWhole (c :: s) = .error .malformed := by
  simp [Numeral.readWhole, Numeral.someDigits, leadingDigits, other]

theorem readBy_word128 : word128.ReadBy .word128 := by
  refine readBy_of ?_ ?_
  · rintro _ n ⟨below, l, rfl, digits⟩ b rest ends
    obtain ⟨whole, rfl⟩ := (l.text_eq_iff n).mp digits
    have read := l.readWhole_text (noDigit_of_ends ends)
    obtain ⟨nonempty, all⟩ := l.whole.property
    -- a numeral that is written for a number begins with a digit, so neither with a minus nor with
    -- nothing
    rw [Reader.word128, Tree.skipBlank_text, Tree.text, Literal.text_of_isWhole whole]
    split
    · rename_i eq
      exact absurd (List.append_eq_nil_iff.mp eq).1 nonempty
    · rename_i after eq
      cases h : l.whole.val with
      | nil => exact absurd h nonempty
      | cons c s =>
        rw [h] at eq
        have digit := all c (h ▸ List.mem_cons_self)
        exact absurd (List.cons.inj eq).1 (ne_of_isDigit digit rfl)
    · rw [read]
      exact if_pos below
  · intro t b rest n s ends read behind
    rw [Reader.word128, Tree.skipBlank_text] at read
    split at read
    · cases read
    · cases read
    · rename_i unsigned
      split at read
      · cases read
      · rename_i digits after parsed
        split at read
        · -- the reader stops behind the digits, be they a whole numeral or not; that the text ends
          -- there as behind a value leaves no fraction and no exponent
          rename_i below
          obtain ⟨rfl, rfl⟩ := Prod.mk.inj (Except.ok.inj read)
          obtain ⟨c, s', eq, -⟩ := t.exists_cons
          have text : t.text ++ rest = c :: (s' ++ rest) := by rw [eq, List.cons_append]
          have digit : isDigit c = true := by
            refine Bool.of_not_eq_false fun other => ?_
            rw [text, readWhole_of_not_digit other] at parsed
            cases parsed
          obtain ⟨l, rfl⟩ := Tree.eq_number_of_append text (Or.inr digit)
          -- a minus is no digit
          have positive : l.negative = false := by
            refine Bool.eq_false_iff.mpr fun negative => ?_
            rw [Tree.text, Literal.text, negative] at eq
            obtain rfl : '-' = c := (List.cons.inj eq).1
            cases digit
          have split : l.text ++ rest = l.whole.val ++ (l.tail ++ rest) := by
            rw [Literal.text, positive, ← Literal.tail, if_neg Bool.false_ne_true, List.nil_append,
              List.append_assoc]
          rw [Tree.text, split, l.readWhole_text (l.noDigit_tail ends)] at parsed
          obtain ⟨rfl, rfl⟩ := Prod.mk.inj (Except.ok.inj parsed)
          obtain ⟨fraction, exponent⟩ := (ends_tail_iff l ends).mp behind
          have whole : l.IsWhole := ⟨positive, fraction, exponent⟩
          refine ⟨⟨below, l, rfl, (l.text_eq_iff _).mpr ⟨whole, rfl⟩⟩, ?_⟩
          rw [Literal.tail, fraction, exponent]
          rfl
        · cases read

end Format

end

end ShellSale.Json
