import Mathlib.Data.List.TakeWhile
import Mathlib.Data.Set.List
import ShellSale.Proofs.Json.Formats

/-!
## What skipping passes over

A scanner that succeeds has passed over something well formed: a string over its pieces, a numeral
over its digits, and skipping over one value, however deep it is nested. Skipping is a loop with the
open brackets on a stack, so the induction is on its turns: from in front of a value the loop comes
to behind a value, and from behind a value in a bracket to behind the bracket.

* `exists_pieces_of_skipString`, `exists_pieces_of_readString`: what a string passed over is, be it
  skipped or kept.
* `exists_literal`: what reading a numeral passes over.
* `SkipState.passed`: what the turns of skipping pass over.
* `passes_of_skipValue` is the main result.
-/

namespace ShellSale.Json

variable {s rest : List Char}

/-- Whether a text is a value between blanks in front of it and the rest. -/
def Passes (s rest : List Char) : Prop :=
  ∃ (b : Blanks) (t : Tree), s = b.val ++ (t.text ++ rest)

/-! ### Blanks and words -/

/-- Blanks behind blanks. -/
def Blanks.append (b b' : Blanks) : Blanks :=
  ⟨b.val ++ b'.val, fun c h => (List.mem_append.mp h).elim (b.property c) (b'.property c)⟩

theorem skipBlank_val (b : Blanks) : skipBlank b.val = [] :=
  List.dropWhile_eq_nil_iff.mpr b.property

theorem exists_blanks (s : List Char) : ∃ b : Blanks, s = b.val ++ skipBlank s :=
  ⟨⟨s.takeWhile isBlank, fun _ h => List.mem_takeWhile_imp h⟩,
    List.takeWhile_append_dropWhile.symm⟩

/-- What starts behind blanks starts with blanks. -/
theorem exists_blanks_of_eq {s' : List Char} (h : skipBlank s = s') :
    ∃ b : Blanks, s = b.val ++ s' :=
  h ▸ exists_blanks s

theorem eq_append_of_readWord {word : List Char} (h : readWord word s = .ok rest) :
    s = word ++ rest := by
  induction word generalizing s with
  | nil => exact Except.ok.inj h
  | cons c word ih =>
    cases s with
    | nil => cases h
    | cons d s =>
      rw [readWord] at h
      split at h
      · rename_i same
        rw [same, ih h, List.cons_append]
      · cases h

theorem exists_colon (h : readColon s = .ok rest) : ∃ b : Blanks, s = b.val ++ (':' :: rest) := by
  rw [readColon] at h
  split at h
  · cases h
  · rename_i after eq
    obtain rfl := Except.ok.inj h
    exact exists_blanks_of_eq eq
  · cases h

/-! ### Strings -/

theorem exists_pieces_cons (p : Piece) (h : ∃ pieces, s = stringText pieces ++ rest) :
    ∃ pieces, p.text ++ s = stringText pieces ++ rest := by
  obtain ⟨pieces, rfl⟩ := h
  exact ⟨p :: pieces, (stringText_cons p pieces rest).symm⟩

/-- A character behind which a string may go on in no other way stands for itself. -/
theorem exists_pieces_plain {c : Char} (quote : c ≠ '"') (alone : c = '\\' → s ≠ [])
    (escape : ∀ d t, c = '\\' → s ≠ d :: t) (shown : isControl c ≠ true)
    (h : ∃ pieces, s = stringText pieces ++ rest) :
    ∃ pieces, c :: s = stringText pieces ++ rest := by
  refine exists_pieces_cons (.plain c ⟨Bool.eq_false_iff.mpr shown, quote, fun slash => ?_⟩) h
  cases s with
  | nil => exact alone slash rfl
  | cons d t => exact escape d t slash rfl

/-- **Skipping a string** passes over its pieces. -/
theorem exists_pieces_of_skipString (h : skipString s = .ok rest) :
    ∃ pieces, s = stringText pieces ++ rest := by
  fun_induction skipString s
  case case2 =>
    cases h
    exact ⟨[], rfl⟩
  case case5 a b c d s u stands ih => exact exists_pieces_cons (.unit a b c d u stands) (ih h)
  case case7 e s _ _ c stands ih => exact exists_pieces_cons (.short e c stands) (ih h)
  case case10 c s quote alone _ _ escape shown ih =>
    exact exists_pieces_plain quote alone escape shown (ih h)
  all_goals cases h

/-- **Reading a string** passes over its pieces. -/
theorem exists_pieces_of_readString {acc : List Char} {x : String}
    (h : readString acc s = .ok (x, rest)) : ∃ pieces, s = stringText pieces ++ rest := by
  fun_induction readString acc s
  case case2 =>
    cases h
    exact ⟨[], rfl⟩
  case case7 a b c d u stands _ _ a' b' c' d' s v stands' _ ih =>
    exact exists_pieces_cons (.unit a b c d u stands)
      (exists_pieces_cons (.unit a' b' c' d' v stands') (ih h))
  case case11 a b c d s u stands _ _ ih => exact exists_pieces_cons (.unit a b c d u stands) (ih h)
  case case13 e s _ _ c stands ih => exact exists_pieces_cons (.short e c stands) (ih h)
  case case16 c s quote alone _ _ escape shown ih =>
    exact exists_pieces_plain quote alone escape shown (ih h)
  all_goals cases h

/-! ### Numerals -/

theorem exists_digits {digits : List Nat} (h : Numeral.someDigits s = .ok (digits, rest)) :
    ∃ d : Digits, s = d.val ++ rest ∧ digits = d.val.map digitValue := by
  have parts : s = s.takeWhile isDigit ++ s.dropWhile isDigit :=
    List.takeWhile_append_dropWhile.symm
  have all : ∀ c ∈ s.takeWhile isDigit, isDigit c = true := fun _ mem => List.mem_takeWhile_imp mem
  rw [Numeral.someDigits, leadingDigits] at h
  generalize s.takeWhile isDigit = front at h parts all
  generalize s.dropWhile isDigit = back at h parts
  cases front with
  | nil => cases back <;> cases h
  | cons c front =>
    obtain ⟨rfl, rfl⟩ := Prod.mk.inj (Except.ok.inj h)
    exact ⟨⟨c :: front, List.cons_ne_nil c front, all⟩, parts, rfl⟩

theorem exists_whole {digits : List Nat} (h : Numeral.readWhole s = .ok (digits, rest)) :
    ∃ d : Digits, (d.val.head? = some '0' → d.val = ['0']) ∧ s = d.val ++ rest := by
  rw [Numeral.readWhole] at h
  split at h
  · cases h
  · rename_i canonical
    obtain ⟨⟨d, some, all⟩, parts, rfl⟩ := exists_digits h
    refine ⟨⟨d, some, all⟩, fun zero => ?_, parts⟩
    obtain ⟨d, rfl⟩ := List.head?_eq_some_iff.mp zero
    cases d with
    | nil => rfl
    | cons c d => exact absurd h (canonical _ _ _)

/-- The digits behind a point as the text of a fraction. -/
theorem exists_fraction {fraction : Option (List Nat)}
    (h : Numeral.readFraction s = .ok (fraction, rest)) :
    ∃ f : Option Digits, s = (f.elim [] fun digits => '.' :: digits.val) ++ rest := by
  rw [Numeral.readFraction.eq_def] at h
  split at h
  · split at h
    · rename_i digits after read
      obtain ⟨-, rfl⟩ := Prod.mk.inj (Except.ok.inj h)
      obtain ⟨d, rfl, -⟩ := exists_digits read
      exact ⟨some d, rfl⟩
    · cases h
  · obtain ⟨-, rfl⟩ := Prod.mk.inj (Except.ok.inj h)
    exact ⟨none, rfl⟩

theorem exists_sign (s : List Char) : ∃ sign : List Char,
    (sign = [] ∨ sign = ['+'] ∨ sign = ['-']) ∧ s = sign ++ (Numeral.readSign s).2 := by
  rw [Numeral.readSign.eq_def]
  split
  · exact ⟨['+'], Or.inr (Or.inl rfl), rfl⟩
  · exact ⟨['-'], Or.inr (Or.inr rfl), rfl⟩
  · exact ⟨[], Or.inl rfl, rfl⟩

theorem exists_exponent {exponent : Option (Bool × Nat)}
    (h : Numeral.readExponent s = .ok (exponent, rest)) :
    ∃ e : Option Exponent, s = e.elim [] Exponent.text ++ rest := by
  -- what follows the mark, be it a small or a capital letter
  have marked (mark : Char) (isMark : mark = 'e' ∨ mark = 'E') {t after : List Char}
      {digits : List Nat}
      (written : Numeral.someDigits (Numeral.readSign t).2 = .ok (digits, after)) :
      ∃ e : Option Exponent, mark :: t = e.elim [] Exponent.text ++ after := by
    obtain ⟨sign, isSign, parts⟩ := exists_sign t
    obtain ⟨d, eq, -⟩ := exists_digits written
    refine ⟨some ⟨mark, isMark, sign, isSign, d⟩, ?_⟩
    rw [parts, eq]
    simp [Exponent.text]
  rw [Numeral.readExponent.eq_def] at h
  split at h
  · dsimp only at h
    split at h
    · rename_i written
      obtain ⟨-, rfl⟩ := Prod.mk.inj (Except.ok.inj h)
      exact marked 'e' (Or.inl rfl) written
    · cases h
  · dsimp only at h
    split at h
    · rename_i written
      obtain ⟨-, rfl⟩ := Prod.mk.inj (Except.ok.inj h)
      exact marked 'E' (Or.inr rfl) written
    · cases h
  · obtain ⟨-, rfl⟩ := Prod.mk.inj (Except.ok.inj h)
    exact ⟨none, rfl⟩

/-- **Reading a numeral** passes over its text. -/
theorem exists_literal {n : Numeral} (h : Numeral.read s = .ok (n, rest)) :
    ∃ l : Literal, s = l.text ++ rest := by
  have minus : s = (if (Numeral.readMinus s).1 then ['-'] else []) ++ (Numeral.readMinus s).2 := by
    rw [Numeral.readMinus.eq_def]
    split <;> rfl
  rw [Numeral.read] at h
  obtain ⟨⟨digits, s₁⟩, whole, h⟩ := bind_eq_ok_iff.mp h
  obtain ⟨⟨fraction, s₂⟩, point, h⟩ := bind_eq_ok_iff.mp h
  obtain ⟨⟨exponent, s₃⟩, mark, h⟩ := bind_eq_ok_iff.mp h
  cases h
  obtain ⟨w, canonical, eq⟩ := exists_whole whole
  obtain ⟨f, rfl⟩ := exists_fraction point
  obtain ⟨e, rfl⟩ := exists_exponent mark
  refine ⟨⟨(Numeral.readMinus s).1, w, canonical, f, e⟩, ?_⟩
  rw [Literal.text, List.append_assoc, List.append_assoc, List.append_assoc, ← eq]
  exact minus

/-! ### Scalars -/

/-- Skipping a value that is neither a list nor an object passes over it. -/
theorem exists_scalar (h : skipScalar s = .ok rest) : ∃ t : Tree, s = t.text ++ rest := by
  rw [skipScalar.eq_def] at h
  split at h
  · exact ⟨.null, congrArg _ (eq_append_of_readWord h)⟩
  · exact ⟨.flag true, congrArg _ (eq_append_of_readWord h)⟩
  · exact ⟨.flag false, congrArg _ (eq_append_of_readWord h)⟩
  · obtain ⟨pieces, rfl⟩ := exists_pieces_of_skipString h
    exact ⟨.string pieces, rfl⟩
  · split at h
    · split at h
      · rename_i n after read
        obtain rfl := Except.ok.inj h
        obtain ⟨l, eq⟩ := exists_literal read
        exact ⟨.number l, eq⟩
      · cases h
    · cases h
  · cases h

/-! ### Brackets -/

/-- The character that opens a bracket. -/
def Bracket.opening : Bracket → Char
  | list => '['
  | object => '\x7b'

namespace Entry

/-- Whether a value with what leads to it is an item of a list or a member of an object. -/
def Fits (e : Entry) : Bracket → Prop
  | .list => ∃ i, ofItem i = e
  | .object => ∃ m, ofMember m = e

/-- Values that fit a bracket make a value in it. -/
theorem exists_tree {b : Bracket} {es : List Entry} (fits : ∀ e ∈ es, e.Fits b) (gap : Blanks)
    (rest : List Char) : ∃ t : Tree,
      b.opening :: (gap.val ++ (row true es ++ (b.close :: rest))) = t.text ++ rest := by
  cases b with
  | list =>
    obtain ⟨items, rfl⟩ : es ∈ Set.range (List.map ofItem) := by rwa [Set.range_list_map]
    exact ⟨.list gap items, by rw [Tree.list_append, row_ofItem]; rfl⟩
  | object =>
    obtain ⟨members, rfl⟩ : es ∈ Set.range (List.map ofMember) := by rwa [Set.range_list_map]
    exact ⟨.object gap members, by rw [Tree.object_append, row_ofMember]; rfl⟩

/-- What is passed to reach a value in a bracket leads to the value. -/
theorem exists_lead {b : Bracket} {s s' : List Char} (reached : skipToValue b s = .ok s')
    (before : Blanks) {t : Tree} {rest : List Char} (value : s' = before.val ++ (t.text ++ rest)) :
    ∃ lead : List Char,
      s = lead ++ (t.text ++ rest) ∧ ∀ after, (⟨lead, t, after⟩ : Entry).Fits b := by
  subst value
  cases b with
  | list =>
    obtain rfl := Except.ok.inj reached
    exact ⟨before.val, rfl, fun after => ⟨⟨before, t, after⟩, rfl⟩⟩
  | object =>
    rw [skipToValue, skipKey] at reached
    split at reached
    · cases reached
    · rename_i behind eq
      obtain ⟨s₁, skipped, colon⟩ := bind_eq_ok_iff.mp reached
      obtain ⟨pieces, rfl⟩ := exists_pieces_of_skipString skipped
      obtain ⟨space, rfl⟩ := exists_colon colon
      obtain ⟨gap, rfl⟩ := exists_blanks_of_eq eq
      refine ⟨gap.val ++ ('"' :: (stringText pieces ++ (space.val ++ (':' :: before.val)))), ?_,
        fun after => ⟨⟨⟨before, t, after⟩, gap, pieces, space⟩, rfl⟩⟩
      simp
    · cases reached

end Entry

namespace SkipState

variable {b : Bracket} {opened : List Bracket} {st : SkipState}

theorem eq_close_of_isClosedBy {c : Char} (h : b.isClosedBy c = true) : c = b.close := by
  cases b <;> exact of_decide_eq_true h

/-- A value is a scalar, or it starts with an opening bracket. -/
theorem startValue_cases (h : startValue opened s = .ok st) :
    (∃ (t : Tree) (s' : List Char), skipBlank s = t.text ++ s' ∧ st = ⟨false, opened, s'⟩) ∨
      ∃ b s', skipBlank s = b.opening :: s' ∧ enter b opened s' = .ok st := by
  rw [startValue] at h
  split at h
  · cases h
  · rename_i s' eq
    exact Or.inr ⟨.list, s', eq, h⟩
  · rename_i s' eq
    exact Or.inr ⟨.object, s', eq, h⟩
  · obtain ⟨s', scalar, ended⟩ := bind_eq_ok_iff.mp h
    obtain ⟨t, eq⟩ := exists_scalar scalar
    exact Or.inl ⟨t, s', eq, (Except.ok.inj ended).symm⟩

/-- Where skipping goes on in a bracket, in front of its first or a later value: behind the end of
the bracket, or in front of the value that something leads to. -/
def Proceeds (b : Bracket) (opened : List Bracket) (first : Bool) (s : List Char) (st : SkipState) :
    Prop :=
  (∃ (gap : Blanks) (s' : List Char), s = gap.val ++ (b.close :: s') ∧ st = ⟨false, opened, s'⟩) ∨
    ∃ (gap : Blanks) (s₁ s' : List Char), s = gap.val ++ (comma first ++ s₁) ∧
      skipToValue b s₁ = .ok s' ∧ st = ⟨true, b :: opened, s'⟩

theorem proceeds_enter (h : enter b opened s = .ok st) : Proceeds b opened true s st := by
  rw [enter] at h
  split at h
  · cases h
  · rename_i c s₁ eq
    obtain ⟨gap, rfl⟩ := exists_blanks_of_eq eq
    split at h
    · rename_i closed
      obtain rfl := eq_close_of_isClosedBy closed
      exact Or.inl ⟨gap, s₁, rfl, (Except.ok.inj h).symm⟩
    · obtain ⟨s', reached, eq⟩ := bind_eq_ok_iff.mp h
      exact Or.inr ⟨gap, c :: s₁, s', rfl, reached, (Except.ok.inj eq).symm⟩

theorem proceeds_endValue (h : endValue b opened s = .ok st) : Proceeds b opened false s st := by
  rw [endValue] at h
  split at h
  · cases h
  · rename_i c s₁ eq
    obtain ⟨gap, rfl⟩ := exists_blanks_of_eq eq
    split at h
    · rename_i comma
      subst comma
      obtain ⟨s', reached, eq⟩ := bind_eq_ok_iff.mp h
      exact Or.inr ⟨gap, s₁, s', rfl, reached, (Except.ok.inj eq).symm⟩
    · split at h
      · rename_i closed
        obtain rfl := eq_close_of_isClosedBy closed
        exact Or.inl ⟨gap, s₁, rfl, (Except.ok.inj h).symm⟩
      · cases h

/-- Whether some turns from in front of a value pass it. -/
def PassesValue (turns : Nat) : Prop :=
  ∀ opened s rest, run turns ⟨true, opened, s⟩ = .ok rest →
    ∃ (before : Blanks) (t : Tree) (s' : List Char), s = before.val ++ (t.text ++ s') ∧
      ∃ left < turns, run left ⟨false, opened, s'⟩ = .ok rest

/-- Whether some turns from behind a value in a bracket pass what is left of the bracket. -/
def PassesRow (turns : Nat) : Prop :=
  ∀ b opened s rest, run turns ⟨false, b :: opened, s⟩ = .ok rest →
    ∃ (gap : Blanks) (es : List Entry) (s' : List Char), (∀ e ∈ es, e.Fits b) ∧
      s = gap.val ++ (Entry.row false es ++ (b.close :: s')) ∧
        ∃ left < turns, run left ⟨false, opened, s'⟩ = .ok rest

/-- What is left of a bracket is passed, if fewer turns pass values and rows. -/
theorem exists_row {turns : Nat} (values : PassesValue turns)
    (rows : ∀ left < turns, PassesRow left) {first : Bool}
    (proceeds : Proceeds b opened first s st) (h : run turns st = .ok rest) :
    ∃ (gap : Blanks) (es : List Entry) (s' : List Char), (∀ e ∈ es, e.Fits b) ∧
      s = gap.val ++ (Entry.row first es ++ (b.close :: s')) ∧
        ∃ left ≤ turns, run left ⟨false, opened, s'⟩ = .ok rest := by
  rcases proceeds with ⟨gap, s', rfl, rfl⟩ | ⟨gap, s₁, s₂, rfl, reached, rfl⟩
  · exact ⟨gap, [], s', by simp, rfl, turns, Nat.le_refl turns, h⟩
  · obtain ⟨before, t, s₃, eq, left, fewer, h⟩ := values _ _ _ h
    -- behind the value, the turns that are left pass the other values
    obtain ⟨after, es, s', fits, rfl, left', fewer', h⟩ := rows left fewer _ _ _ _ h
    obtain ⟨lead, rfl, fit⟩ := Entry.exists_lead reached before eq
    refine ⟨gap, ⟨lead, t, after⟩ :: es, s', List.forall_mem_cons.mpr ⟨fit after, fits⟩, ?_, left',
      (fewer'.trans fewer).le, h⟩
    simp [Entry.row]

theorem passesValue_succ {turns : Nat} (values : PassesValue turns)
    (rows : ∀ left < turns, PassesRow left) : PassesValue (turns + 1) := by
  intro opened s rest h
  obtain ⟨st, started, ran⟩ :=
    bind_eq_ok_iff.mp (show startValue opened s >>= run turns = .ok rest from h)
  rcases startValue_cases started with ⟨t, s', eq, rfl⟩ | ⟨b, s', eq, entered⟩
  · obtain ⟨before, rfl⟩ := exists_blanks_of_eq eq
    exact ⟨before, t, s', rfl, turns, Nat.lt_succ_self turns, ran⟩
  · obtain ⟨before, rfl⟩ := exists_blanks_of_eq eq
    obtain ⟨gap, es, s₁, fits, rfl, left, fewer, ran⟩ :=
      exists_row values rows (proceeds_enter entered) ran
    obtain ⟨t, text⟩ := Entry.exists_tree fits gap s₁
    exact ⟨before, t, s₁, congrArg _ text, left, Nat.lt_succ_of_le fewer, ran⟩

theorem passesRow_succ {turns : Nat} (values : PassesValue turns)
    (rows : ∀ left < turns, PassesRow left) : PassesRow (turns + 1) := by
  intro b opened s rest h
  obtain ⟨st, ended, ran⟩ :=
    bind_eq_ok_iff.mp (show endValue b opened s >>= run turns = .ok rest from h)
  obtain ⟨gap, es, s', fits, eq, left, fewer, ran⟩ :=
    exists_row values rows (proceeds_endValue ended) ran
  exact ⟨gap, es, s', fits, eq, left, Nat.lt_succ_of_le fewer, ran⟩

/-- **What skipping passes over**, from in front of a value and from behind a value in a bracket. -/
theorem passed (turns : Nat) : PassesValue turns ∧ PassesRow turns := by
  -- a value in a bracket takes some of the turns, and what follows it any number of those left
  induction turns using Nat.strongRecOn with
  | ind turns ih =>
    cases turns with
    | zero => exact ⟨(fun _ _ _ h => by cases h), fun _ _ _ _ h => by cases h⟩
    | succ turns =>
      have values : PassesValue turns := (ih turns (Nat.lt_succ_self turns)).1
      have rows (left : Nat) (fewer : left < turns) : PassesRow left :=
        (ih left (Nat.lt_succ_of_lt fewer)).2
      exact ⟨passesValue_succ values rows, passesRow_succ values rows⟩

end SkipState

/-- **Skipping a value** passes over one value of JSON. -/
theorem passes_of_skipValue (h : skipValue s = .ok rest) : Passes s rest := by
  obtain ⟨before, t, s', eq, left, -, ended⟩ := (SkipState.passed s.length).1 [] s rest h
  rw [SkipState.run] at ended
  obtain rfl := Except.ok.inj ended
  exact ⟨before, t, eq⟩

end ShellSale.Json
