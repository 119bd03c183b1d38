import ShellSale.Proofs.Json.Tree

/-!
## Reading and skipping strings

A string is read exactly if its pieces spell a text, and then as this text; it is skipped in any
case.

* `readString_iff`: what is read of a string.
* `skipString_text`: what is left of a string that is skipped.
-/

namespace ShellSale.Json

/-! ### Units -/

theorem hexValue?_lt {c : Char} {n : Nat} (h : Bytes.hexValue? c = some n) : n < 16 := by
  simp only [Bytes.hexValue?] at h
  split at h
  · cases h; omega
  · split at h
    · cases h; omega
    · split at h
      · cases h; omega
      · cases h

theorem unit?_lt {a b c d : Char} {u : Nat} (h : unit? a b c d = some u) : u < 0x10000 := by
  simp only [unit?, Option.bind_eq_bind, Option.bind_eq_some_iff] at h
  obtain ⟨i, hi, j, hj, k, hk, l, hl, eq⟩ := h
  obtain rfl := Option.some.inj eq
  have := hexValue?_lt hi
  have := hexValue?_lt hj
  have := hexValue?_lt hk
  have := hexValue?_lt hl
  omega

theorem isLeading_iff {u : Nat} : isLeading u = true ↔ 0xD800 ≤ u ∧ u ≤ 0xDBFF := by
  simp [isLeading]

theorem isTrailing_iff {u : Nat} : isTrailing u = true ↔ 0xDC00 ≤ u ∧ u ≤ 0xDFFF := by
  simp [isTrailing]

theorem not_isTrailing_of_isLeading {u : Nat} (h : isLeading u = true) : isTrailing u ≠ true := by
  rw [isLeading_iff] at h
  rw [Ne, isTrailing_iff]
  omega

/-- A number that is no surrogate is the number of a character. -/
theorem exists_toNat_eq {u : Nat} (small : u < 0x110000) (leading : isLeading u ≠ true)
    (trailing : isTrailing u ≠ true) : ∃ c : Char, c.toNat = u := by
  rw [Ne, isLeading_iff] at leading
  rw [Ne, isTrailing_iff] at trailing
  have valid : u.isValidChar := by
    unfold Nat.isValidChar
    omega
  exact ⟨Char.ofNat u, by rw [Char.ofNat, dif_pos valid]; rfl⟩

theorem not_isLeading (c : Char) : isLeading c.toNat ≠ true := by
  have valid : c.toNat.isValidChar := c.valid
  unfold Nat.isValidChar at valid
  rw [Ne, isLeading_iff]
  omega

theorem not_isTrailing (c : Char) : isTrailing c.toNat ≠ true := by
  have valid : c.toNat.isValidChar := c.valid
  unfold Nat.isValidChar at valid
  rw [Ne, isTrailing_iff]
  omega

/-- The surrogates of a character beyond the first plane. -/
theorem surrogates {c : Char} (beyond : 0x10000 ≤ c.toNat) :
    isLeading (0xD800 + (c.toNat - 0x10000) / 0x400) = true ∧
      isTrailing (0xDC00 + (c.toNat - 0x10000) % 0x400) = true ∧
      paired (0xD800 + (c.toNat - 0x10000) / 0x400) (0xDC00 + (c.toNat - 0x10000) % 0x400) = c := by
  have valid : c.toNat.isValidChar := c.valid
  unfold Nat.isValidChar at valid
  rw [isLeading_iff, isTrailing_iff]
  refine ⟨by omega, by omega, ?_⟩
  have number : 0x10000 + (0xD800 + (c.toNat - 0x10000) / 0x400 - 0xD800) * 0x400 +
      (0xDC00 + (c.toNat - 0x10000) % 0x400 - 0xDC00) = c.toNat := by omega
  rw [paired, number, Char.ofNat_toNat]

/-- Two surrogates are those of a character beyond the first plane. -/
theorem exists_surrogates {u v : Nat} (leading : isLeading u = true)
    (trailing : isTrailing v = true) :
    ∃ c : Char, 0x10000 ≤ c.toNat ∧ 0xD800 + (c.toNat - 0x10000) / 0x400 = u ∧
      0xDC00 + (c.toNat - 0x10000) % 0x400 = v := by
  rw [isLeading_iff] at leading
  rw [isTrailing_iff] at trailing
  obtain ⟨c, eq⟩ : ∃ c : Char, c.toNat = 0x10000 + (u - 0xD800) * 0x400 + (v - 0xDC00) :=
    exists_toNat_eq (by omega) (by rw [Ne, isLeading_iff]; omega)
      (by rw [Ne, isTrailing_iff]; omega)
  exact ⟨c, by omega, by omega, by omega⟩

/-! ### Reading -/

theorem stringText_cons (p : Piece) (pieces : List Piece) (rest : List Char) :
    stringText (p :: pieces) ++ rest = p.text ++ (stringText pieces ++ rest) := by
  rw [stringText, stringText, List.flatMap_cons, List.append_assoc, List.append_assoc,
    List.append_assoc]

theorem readString_short {e c : Char} (stands : shortEscape? e = some c) (acc s : List Char) :
    readString acc ('\\' :: e :: s) = readString (c :: acc) s := by
  have other : e ≠ 'u' := by
    rintro rfl
    cases stands
  rw [readString.eq_def]
  simp [other, stands]

theorem readString_basic {a b c d : Char} {u : Nat} (stands : unit? a b c d = some u)
    (leading : isLeading u ≠ true) (trailing : isTrailing u ≠ true) (acc s : List Char) :
    readString acc ('\\' :: 'u' :: a :: b :: c :: d :: s) =
      readString (Char.ofNat u :: acc) s := by
  rw [readString.eq_def]
  simp [stands, leading, trailing]

theorem readString_trailing {a b c d : Char} {u : Nat} (stands : unit? a b c d = some u)
    (trailing : isTrailing u = true) (acc s : List Char) (r : String × List Char) :
    readString acc ('\\' :: 'u' :: a :: b :: c :: d :: s) ≠ .ok r := by
  rw [readString.eq_def]
  simp [stands, trailing]

theorem readString_pair {a b c d a' b' c' d' : Char} {u v : Nat} (first : unit? a b c d = some u)
    (second : unit? a' b' c' d' = some v) (leading : isLeading u = true)
    (trailing : isTrailing v = true) (acc s : List Char) :
    readString acc ('\\' :: 'u' :: a :: b :: c :: d :: '\\' :: 'u' :: a' :: b' :: c' :: d' :: s) =
      readString (paired u v :: acc) s := by
  have whole := not_isTrailing_of_isLeading leading
  rw [readString.eq_def]
  simp [first, second, leading, trailing, whole]

/-- Whether a string goes on with the second of two surrogates. -/
def Resumes : List Piece → Prop
  | .unit _ _ _ _ v _ :: _ => isTrailing v = true
  | _ => False

/-- The first of two surrogates is no text without the second. -/
theorem readString_half {a b c d : Char} {u : Nat} (stands : unit? a b c d = some u)
    (leading : isLeading u = true) {pieces : List Piece} (alone : ¬Resumes pieces)
    (acc rest : List Char) (r : String × List Char) :
    readString acc ('\\' :: 'u' :: a :: b :: c :: d :: (stringText pieces ++ rest)) ≠ .ok r := by
  have whole := not_isTrailing_of_isLeading leading
  rw [readString.eq_def]
  simp only [stands, whole, leading, if_true, if_false, Bool.false_eq_true]
  rcases pieces with
    _ | ⟨⟨e, shown, quote, escape⟩ | ⟨e, x, short⟩ | ⟨a', b', c', d', v, second⟩, pieces⟩
  · simp [stringText]
  · simp [stringText, Piece.text, escape]
  · have other : e ≠ 'u' := by
      rintro rfl
      cases short
    simp [stringText, Piece.text, other]
  · have trailing : isTrailing v ≠ true := alone
    simp [stringText, Piece.text, second, trailing]

/-! ### Spelling -/

theorem spells_nil_iff {s : List Char} : Spells [] s ↔ s = [] :=
  ⟨fun h => by cases h; rfl, fun h => h ▸ .nil⟩

theorem spells_plain_iff {c : Char} {allowed} {pieces : List Piece} {s : List Char} :
    Spells (.plain c allowed :: pieces) s ↔ ∃ t, Spells pieces t ∧ s = c :: t := by
  constructor
  · rintro (_ | h)
    exact ⟨_, h, rfl⟩
  · rintro ⟨t, h, rfl⟩
    exact .plain h

theorem spells_short_iff {e c : Char} {stands} {pieces : List Piece} {s : List Char} :
    Spells (.short e c stands :: pieces) s ↔ ∃ t, Spells pieces t ∧ s = c :: t := by
  constructor
  · rintro (_ | _ | h)
    exact ⟨_, h, rfl⟩
  · rintro ⟨t, h, rfl⟩
    exact .short h

section

variable {a b c d : Char} {u : Nat} {stands : unit? a b c d = some u} {pieces : List Piece}
  {s : List Char}

theorem spells_basic_iff (leading : isLeading u ≠ true) (trailing : isTrailing u ≠ true) :
    Spells (.unit a b c d u stands :: pieces) s ↔
      ∃ t, Spells pieces t ∧ s = Char.ofNat u :: t := by
  constructor
  · intro h
    cases h with
    | unit rest => exact ⟨_, rest, by rw [Char.ofNat_toNat]⟩
    | pair beyond rest => exact absurd (surrogates beyond).1 leading
  · rintro ⟨t, h, rfl⟩
    obtain ⟨x, rfl⟩ := exists_toNat_eq (by have := unit?_lt stands; omega) leading trailing
    rw [Char.ofNat_toNat]
    exact .unit h

theorem not_spells_of_trailing (trailing : isTrailing u = true) :
    ¬Spells (.unit a b c d u stands :: pieces) s := by
  intro h
  cases h with
  | unit rest => exact not_isTrailing _ trailing
  | pair beyond rest => exact not_isTrailing_of_isLeading (surrogates beyond).1 trailing

theorem not_spells_of_half (leading : isLeading u = true) (alone : ¬Resumes pieces) :
    ¬Spells (.unit a b c d u stands :: pieces) s := by
  intro h
  cases h with
  | unit rest => exact not_isLeading _ leading
  | pair beyond rest => exact alone (surrogates beyond).2.1

theorem spells_pair_iff {a' b' c' d' : Char} {v : Nat} {stands' : unit? a' b' c' d' = some v}
    (leading : isLeading u = true) (trailing : isTrailing v = true) :
    Spells (.unit a b c d u stands :: .unit a' b' c' d' v stands' :: pieces) s ↔
      ∃ t, Spells pieces t ∧ s = paired u v :: t := by
  constructor
  · intro h
    cases h with
    | unit rest => exact absurd leading (not_isLeading _)
    | pair beyond rest => exact ⟨_, rest, congrArg (· :: _) (surrogates beyond).2.2.symm⟩
  · rintro ⟨t, h, rfl⟩
    obtain ⟨x, beyond, rfl, rfl⟩ := exists_surrogates leading trailing
    have eq := (surrogates beyond).2.2
    rw [eq]
    exact .pair beyond h

end

/-- **Reading a string** gives the text that its pieces spell, and fails if they spell none. -/
theorem readString_iff (pieces : List Piece) (acc rest : List Char) (x : String) (s : List Char) :
    readString acc (stringText pieces ++ rest) = .ok (x, s) ↔
      ∃ t, Spells pieces t ∧ x = String.ofList (acc.reverse ++ t) ∧ s = rest := by
  -- a pair of surrogates takes two pieces, so the induction is on the number of pieces
  induction n : pieces.length using Nat.strongRecOn generalizing pieces acc with
  | ind n ih =>
    subst n
    -- reading on behind some pieces that stand for one more character
    have go (c : Char) {more : List Piece} (fewer : more.length < pieces.length) :
        readString (c :: acc) (stringText more ++ rest) = .ok (x, s) ↔
          ∃ t, (∃ t', Spells more t' ∧ t = c :: t') ∧
            x = String.ofList (acc.reverse ++ t) ∧ s = rest := by
      rw [ih _ fewer more (c :: acc) rfl]
      constructor
      · rintro ⟨t, spells, rfl, rfl⟩
        exact ⟨c :: t, ⟨t, spells, rfl⟩, by simp, rfl⟩
      · rintro ⟨_, ⟨t, spells, rfl⟩, rfl, rfl⟩
        exact ⟨t, spells, by simp, rfl⟩
    have refused {r : Except ReadError (String × List Char)} (fails : r ≠ .ok (x, s))
        (nothing : ∀ t, ¬Spells pieces t) :
        r = .ok (x, s) ↔ ∃ t, Spells pieces t ∧ x = String.ofList (acc.reverse ++ t) ∧ s = rest :=
      iff_of_false fails fun ⟨t, spells, _⟩ => nothing t spells
    rcases pieces with _ | ⟨⟨c, allowed⟩ | ⟨e, c, stands⟩ | ⟨a, b, c, d, u, stands⟩, more⟩
    · simp only [spells_nil_iff, exists_eq_left, List.append_nil]
      rw [stringText, List.flatMap_nil, List.nil_append, List.singleton_append, readString]
      simp [eq_comm]
    · simp only [spells_plain_iff, ← go c (Nat.lt_succ_self _)]
      rw [stringText_cons, Piece.text, List.singleton_append, readString_plain allowed]
    · simp only [spells_short_iff, ← go c (Nat.lt_succ_self _)]
      rw [stringText_cons]
      exact iff_of_eq (congrArg (· = _) (readString_short stands acc _))
    -- a `u` escape: the second half of a pair may not stand alone, the first half needs the second
    -- behind it, and all others stand for themselves
    · by_cases trailing : isTrailing u = true
      · refine refused ?_ fun _ => not_spells_of_trailing trailing
        rw [stringText_cons]
        exact readString_trailing stands trailing acc _ _
      by_cases leading : isLeading u = true
      · by_cases resumes : Resumes more
        · rcases more with _ | ⟨⟨_, _⟩ | ⟨_, _, _⟩ | ⟨a', b', c', d', v, second⟩, more⟩
          · exact resumes.elim
          · exact resumes.elim
          · exact resumes.elim
          · have fewer : more.length < more.length + 1 + 1 := by omega
            simp only [spells_pair_iff leading resumes, ← go _ fewer]
            rw [stringText_cons, stringText_cons]
            exact iff_of_eq (congrArg (· = _) (readString_pair stands second leading resumes acc _))
        · refine refused ?_ fun _ => not_spells_of_half leading resumes
          rw [stringText_cons]
          exact readString_half stands leading resumes acc rest _
      · simp only [spells_basic_iff leading trailing, ← go _ (Nat.lt_succ_self _)]
        rw [stringText_cons]
        exact iff_of_eq (congrArg (· = _) (readString_basic stands leading trailing acc _))

theorem readString_text_iff (pieces : List Piece) (rest : List Char) (x : String) (s : List Char) :
    readString [] (stringText pieces ++ rest) = .ok (x, s) ↔
      Spells pieces x.toList ∧ s = rest := by
  rw [readString_iff]
  constructor
  · rintro ⟨t, spells, rfl, rfl⟩
    rw [List.reverse_nil, List.nil_append, String.toList_ofList]
    exact ⟨spells, rfl⟩
  · rintro ⟨spells, rfl⟩
    exact ⟨_, spells, String.ofList_toList.symm, rfl⟩

/-- Pieces spell at most one text. -/
theorem Spells.unique {pieces : List Piece} {s t : List Char} (h : Spells pieces s)
    (h' : Spells pieces t) : s = t := by
  have first := (readString_iff pieces [] [] (String.ofList s) []).mpr ⟨s, h, rfl, rfl⟩
  have second := (readString_iff pieces [] [] (String.ofList t) []).mpr ⟨t, h', rfl, rfl⟩
  exact String.ofList_inj.mp (congrArg Prod.fst (Except.ok.inj (first.symm.trans second)))

/-! ### Skipping -/

/-- **Skipping a string** ends behind it. -/
theorem skipString_text (pieces : List Piece) (rest : List Char) :
    skipString (stringText pieces ++ rest) = .ok rest := by
  induction pieces with
  | nil => rfl
  | cons p pieces ih =>
    rw [stringText_cons, ← ih]
    rcases p with ⟨c, shown, quote, escape⟩ | ⟨e, c, stands⟩ | ⟨a, b, c, d, u, stands⟩
    · rw [Piece.text, List.singleton_append, skipString.eq_def]
      simp [shown, escape]
    · have other : e ≠ 'u' := by
        rintro rfl
        cases stands
      rw [skipString.eq_def]
      simp [Piece.text, other, stands]
    · rw [skipString.eq_def]
      simp [Piece.text, stands]

end ShellSale.Json
