import ShellSale.Json.Token

/-!
## Values as they are written

A `Tree` is a JSON value with everything that its text shows: the blanks between tokens, the escapes
in strings, the digits and signs of numerals, and the order and number of the members of objects.
Every tree is well formed by construction, and `Tree.text` is its text. What a string says is a
matter of its own, as a string may escape half of a surrogate pair: `Spells` relates its pieces to
the characters they stand for.

* `Tree.induct`: what holds of a tree if it holds of its parts, holds of every tree.
* `Tree.exists_cons`: the text of a value starts with a character that is neither blank nor closes a
  bracket.
-/

namespace ShellSale.Json

/-! ### Blanks -/

/-- Blanks between two tokens, perhaps none. -/
abbrev Blanks :=
  {s : List Char // ∀ c ∈ s, isBlank c = true}

/-- No blanks. -/
def Blanks.none : Blanks :=
  ⟨[], fun _ h => absurd h List.not_mem_nil⟩

theorem skipBlank_append (b : Blanks) (s : List Char) :
    skipBlank (b.val ++ s) = skipBlank s := by
  rw [skipBlank, List.dropWhile_append_of_pos b.property]
  rfl

theorem skipBlank_of_not_blank {c : Char} (h : isBlank c = false) (s : List Char) :
    skipBlank (c :: s) = c :: s := by
  rw [skipBlank, List.dropWhile_cons_of_neg (by simp [h])]

/-! ### Strings -/

/-- A piece of a string: a character that stands for itself, or an escape. -/
inductive Piece where
  | plain (c : Char) (allowed : isControl c = false ∧ c ≠ '"' ∧ c ≠ '\\')
  /-- A backslash and one character. -/
  | short (e c : Char) (stands : shortEscape? e = some c)
  /-- A 16-bit unit by its four digits. -/
  | unit (a b c d : Char) (u : Nat) (stands : unit? a b c d = some u)

/-- The text of a piece. -/
def Piece.text : Piece → List Char
  | plain c _ => [c]
  | short e _ _ => ['\\', e]
  | unit a b c d _ _ => ['\\', 'u', a, b, c, d]

/-- The text of a string behind its opening quote. -/
def stringText (pieces : List Piece) : List Char :=
  pieces.flatMap Piece.text ++ ['"']

/-- Which characters the pieces of a string stand for. A character beyond the first plane stands as
itself or as its two surrogates. -/
inductive Spells : List Piece → List Char → Prop where
  | nil : Spells [] []
  | plain {c : Char} {allowed} {pieces : List Piece} {s : List Char} :
      Spells pieces s → Spells (.plain c allowed :: pieces) (c :: s)
  | short {e c : Char} {stands} {pieces : List Piece} {s : List Char} :
      Spells pieces s → Spells (.short e c stands :: pieces) (c :: s)
  | unit {a b c d : Char} {x : Char} {stands} {pieces : List Piece} {s : List Char} :
      Spells pieces s → Spells (.unit a b c d x.toNat stands :: pieces) (x :: s)
  | pair {a b c d a' b' c' d' : Char} {x : Char} {leading trailing} {pieces : List Piece}
      {s : List Char} : 0x10000 ≤ x.toNat → Spells pieces s →
      Spells (.unit a b c d (0xD800 + (x.toNat - 0x10000) / 0x400) leading ::
        .unit a' b' c' d' (0xDC00 + (x.toNat - 0x10000) % 0x400) trailing :: pieces) (x :: s)

/-! ### Numerals -/

/-- Decimal digits, at least one. -/
abbrev Digits :=
  {s : List Char // s ≠ [] ∧ ∀ c ∈ s, isDigit c = true}

/-- The exponent of a numeral. -/
structure Exponent where
  mark : Char
  isMark : mark = 'e' ∨ mark = 'E'
  sign : List Char
  isSign : sign = [] ∨ sign = ['+'] ∨ sign = ['-']
  digits : Digits

/-- The text of an exponent. -/
def Exponent.text (e : Exponent) : List Char :=
  e.mark :: (e.sign ++ e.digits.val)

/-- A numeral as it is written. -/
structure Literal where
  negative : Bool
  /-- The digits before the point; none of several is a zero in front. -/
  whole : Digits
  canonical : whole.val.head? = some '0' → whole.val = ['0']
  fraction : Option Digits
  exponent : Option Exponent

/-- The text of a numeral. -/
def Literal.text (l : Literal) : List Char :=
  (if l.negative then ['-'] else []) ++ (l.whole.val ++
    ((l.fraction.elim [] fun digits => '.' :: digits.val) ++ l.exponent.elim [] Exponent.text))

/-! ### Values -/

/-- A value between blanks. -/
structure Item (α : Type) where
  before : Blanks
  value : α
  after : Blanks

/-- A value under a key. -/
structure Member (α : Type) extends Item α where
  /-- The blanks in front of the key. -/
  gap : Blanks
  key : List Piece
  /-- The blanks between the key and the colon. -/
  behind : Blanks

/-- A value as it is written. The blanks of an empty bracket stand in its `gap`. -/
inductive Tree where
  | null
  | flag (b : Bool)
  | number (l : Literal)
  | string (pieces : List Piece)
  | list (gap : Blanks) (items : List (Item Tree))
  | object (gap : Blanks) (members : List (Member Tree))

/-- Whether a text goes on as it may behind a value: not at all, or with a blank, a comma or a
closing bracket. -/
def Ends : List Char → Prop
  | [] => True
  | c :: _ => isBlank c = true ∨ c = ',' ∨ c = ']' ∨ c = '\x7d'

/-- What stands in front of an item: nothing in front of the first. -/
def comma (first : Bool) : List Char :=
  if first then [] else [',']

@[simp] theorem comma_true : comma true = [] := rfl

@[simp] theorem comma_false : comma false = [','] := rfl

mutual

/-- The text of a value. -/
def Tree.text : Tree → List Char
  | .null => ['n', 'u', 'l', 'l']
  | .flag true => ['t', 'r', 'u', 'e']
  | .flag false => ['f', 'a', 'l', 's', 'e']
  | .number l => l.text
  | .string pieces => '"' :: stringText pieces
  | .list gap items => '[' :: (gap.val ++ (Tree.row true items ++ [']']))
  | .object gap members => '\x7b' :: (gap.val ++ (Tree.memberRow true members ++ ['\x7d']))

/-- The text of the items of a list, from the first or from a later one on. -/
def Tree.row : Bool → List (Item Tree) → List Char
  | _, [] => []
  | first, ⟨before, value, after⟩ :: rest =>
    comma first ++ (before.val ++ (value.text ++ (after.val ++ Tree.row false rest)))

/-- The text of the members of an object, from the first or from a later one on. -/
def Tree.memberRow : Bool → List (Member Tree) → List Char
  | _, [] => []
  | first, ⟨⟨before, value, after⟩, gap, key, behind⟩ :: rest =>
    comma first ++ (gap.val ++ ('"' :: (stringText key ++ (behind.val ++ (':' ::
      (before.val ++ (value.text ++ (after.val ++ Tree.memberRow false rest))))))))

end

/-! ### What holds of every value -/

namespace Tree

theorem sizeOf_value_lt {i : Item Tree} {items : List (Item Tree)} (h : i ∈ items) :
    sizeOf i.value < sizeOf items := by
  have inside := List.sizeOf_lt_of_mem h
  have own : sizeOf i = 1 + sizeOf i.before + sizeOf i.value + sizeOf i.after := rfl
  omega

theorem sizeOf_member_lt {m : Member Tree} {members : List (Member Tree)} (h : m ∈ members) :
    sizeOf m.value < sizeOf members := by
  have inside := List.sizeOf_lt_of_mem h
  have own : sizeOf m = 1 + sizeOf m.toItem + sizeOf m.gap + sizeOf m.key + sizeOf m.behind := rfl
  have item : sizeOf m.toItem = 1 + sizeOf m.before + sizeOf m.value + sizeOf m.after := rfl
  omega

/-- What holds of every value whose parts it holds of, holds of every value. -/
@[elab_as_elim]
theorem induct {P : Tree → Prop} (null : P .null) (flag : ∀ b, P (.flag b))
    (number : ∀ l, P (.number l)) (string : ∀ pieces, P (.string pieces))
    (list : ∀ gap items, (∀ i ∈ items, P i.value) → P (.list gap items))
    (object : ∀ gap members, (∀ m ∈ members, P m.value) → P (.object gap members)) :
    ∀ t : Tree, P t
  | .null => null
  | .flag b => flag b
  | .number l => number l
  | .string pieces => string pieces
  | .list gap items =>
    list gap items fun i h =>
      have := sizeOf_value_lt h
      induct null flag number string list object i.value
  | .object gap members =>
    object gap members fun m h =>
      have := sizeOf_member_lt h
      induct null flag number string list object m.value
termination_by t => sizeOf t

/-! ### How a value starts -/

end Tree

theorem ne_of_isDigit {c d : Char} (h : isDigit c = true) (other : isDigit d = false) : c ≠ d := by
  rintro rfl
  rw [h] at other
  cases other

theorem ne_of_numeral {c d : Char} (h : c = '-' ∨ isDigit c = true) (sign : d ≠ '-')
    (other : isDigit d = false) : c ≠ d := by
  rcases h with rfl | digit
  · exact sign.symm
  · exact ne_of_isDigit digit other

/-- A numeral starts with its sign or with a digit. -/
theorem Literal.exists_cons (l : Literal) :
    ∃ c s, l.text = c :: s ∧ (c = '-' ∨ isDigit c = true) := by
  unfold Literal.text
  cases l.negative with
  | true => exact ⟨'-', _, rfl, Or.inl rfl⟩
  | false =>
    obtain ⟨digits, some, all⟩ := l.whole
    cases digits with
    | nil => exact absurd rfl some
    | cons c s => exact ⟨c, _, rfl, Or.inr (all c List.mem_cons_self)⟩

/-- What a character in front of a value is not: a blank, a comma or a closing bracket. -/
structure Opens (c : Char) : Prop where
  blank : isBlank c = false
  comma : c ≠ ','
  list : c ≠ ']'
  object : c ≠ '\x7d'

theorem opens_of_numeral {c : Char} (h : c = '-' ∨ isDigit c = true) : Opens c where
  blank := by
    have other := fun d => ne_of_numeral (d := d) h
    simp only [isBlank, Bool.or_eq_false_iff, decide_eq_false_iff_not]
    exact ⟨⟨⟨other _ (by decide) rfl, other _ (by decide) rfl⟩, other _ (by decide) rfl⟩,
      other _ (by decide) rfl⟩
  comma := ne_of_numeral h (by decide) rfl
  list := ne_of_numeral h (by decide) rfl
  object := ne_of_numeral h (by decide) rfl

namespace Tree

/-- The text of a value starts with a character that opens one. -/
theorem exists_cons (t : Tree) : ∃ c s, t.text = c :: s ∧ Opens c := by
  cases t with
  | number l =>
    obtain ⟨c, s, eq, numeral⟩ := l.exists_cons
    exact ⟨c, s, eq, opens_of_numeral numeral⟩
  | flag b => cases b <;> exact ⟨_, _, rfl, rfl, by decide, by decide, by decide⟩
  | null | string _ | list _ _ | object _ _ =>
    exact ⟨_, _, rfl, rfl, by decide, by decide, by decide⟩

/-- The characters that a value may start with. -/
def Starts : Tree → Char → Prop
  | .null, c => c = 'n'
  | .flag true, c => c = 't'
  | .flag false, c => c = 'f'
  | .number _, c => c = '-' ∨ isDigit c = true
  | .string _, c => c = '"'
  | .list _ _, c => c = '['
  | .object _ _, c => c = '\x7b'

theorem starts_of_append {t : Tree} {rest : List Char} {c : Char} {s : List Char}
    (h : t.text ++ rest = c :: s) : t.Starts c := by
  cases t with
  | number l =>
    obtain ⟨d, s', eq, numeral⟩ := l.exists_cons
    rw [text, eq] at h
    exact (List.cons.inj h).1 ▸ numeral
  | flag b => cases b <;> exact (List.cons.inj h).1.symm
  | null | string _ | list _ _ | object _ _ => exact (List.cons.inj h).1.symm

section

variable {t : Tree} {rest s : List Char}

theorem eq_null_of_append (h : t.text ++ rest = 'n' :: s) : t = .null := by
  have starts := starts_of_append h
  rcases t with _ | (_ | _) | _ | _ | _ | _ <;> simp [Starts, isDigit] at starts ⊢

theorem eq_flag_of_append {c : Char} (h : t.text ++ rest = c :: s) (letter : c = 't' ∨ c = 'f') :
    t = .flag (c = 't') := by
  have starts := starts_of_append h
  rcases letter with rfl | rfl <;>
    rcases t with _ | (_ | _) | _ | _ | _ | _ <;> simp [Starts, isDigit] at starts ⊢

theorem eq_number_of_append {c : Char} (h : t.text ++ rest = c :: s)
    (numeral : c = '-' ∨ isDigit c = true) : ∃ l, t = .number l := by
  have starts := starts_of_append h
  have other : ∀ d, d ≠ '-' → isDigit d = false → c ≠ d := fun d => ne_of_numeral numeral
  rcases t with _ | (_ | _) | l | _ | _ | _
  case number => exact ⟨l, rfl⟩
  all_goals exact absurd starts (other _ (by decide) rfl)

theorem eq_string_of_append (h : t.text ++ rest = '"' :: s) : ∃ pieces, t = .string pieces := by
  have starts := starts_of_append h
  rcases t with _ | (_ | _) | _ | _ | _ | _ <;> simp [Starts, isDigit] at starts ⊢

theorem eq_list_of_append (h : t.text ++ rest = '[' :: s) : ∃ gap items, t = .list gap items := by
  have starts := starts_of_append h
  rcases t with _ | (_ | _) | _ | _ | _ | _ <;> simp [Starts, isDigit] at starts ⊢

theorem eq_object_of_append (h : t.text ++ rest = '\x7b' :: s) :
    ∃ gap members, t = .object gap members := by
  have starts := starts_of_append h
  rcases t with _ | (_ | _) | _ | _ | _ | _ <;> simp [Starts, isDigit] at starts ⊢

end

/-- Blanks in front of a value are passed over. -/
theorem skipBlank_text (b : Blanks) (t : Tree) (rest : List Char) :
    skipBlank (b.val ++ (t.text ++ rest)) = t.text ++ rest := by
  obtain ⟨c, s, eq, opens⟩ := t.exists_cons
  rw [skipBlank_append, eq, List.cons_append, skipBlank_of_not_blank opens.blank]

theorem ends_of_skipBlank {s : List Char} (h : Ends (skipBlank s)) : Ends s := by
  cases s with
  | nil => trivial
  | cons c s =>
    cases blank : isBlank c with
    | true => exact Or.inl blank
    | false => rwa [skipBlank_of_not_blank blank] at h

theorem ends_append (b : Blanks) {s : List Char} (h : Ends s) : Ends (b.val ++ s) := by
  obtain ⟨b, all⟩ := b
  cases b with
  | nil => exact h
  | cons c b => exact Or.inl (all c List.mem_cons_self)

/-- The rest of a list goes on as it may behind a value. -/
theorem ends_row (items : List (Item Tree)) (rest : List Char) :
    Ends (row false items ++ (']' :: rest)) := by
  cases items with
  | nil => exact Or.inr (Or.inr (Or.inl rfl))
  | cons i items => exact Or.inr (Or.inl rfl)

/-- The rest of an object goes on as it may behind a value. -/
theorem ends_memberRow (members : List (Member Tree)) (rest : List Char) :
    Ends (memberRow false members ++ ('\x7d' :: rest)) := by
  cases members with
  | nil => exact Or.inr (Or.inr (Or.inr rfl))
  | cons m members => exact Or.inr (Or.inl rfl)

theorem row_cons (first : Bool) (i : Item Tree) (items : List (Item Tree)) :
    row first (i :: items) =
      comma first ++ (i.before.val ++ (i.value.text ++ (i.after.val ++ row false items))) := by
  cases i
  rfl

theorem memberRow_cons (first : Bool) (m : Member Tree) (members : List (Member Tree)) :
    memberRow first (m :: members) = comma first ++ (m.gap.val ++ ('"' :: (stringText m.key ++
      (m.behind.val ++ (':' :: (m.before.val ++ (m.value.text ++ (m.after.val ++
        memberRow false members)))))))) := by
  cases m
  rfl

theorem list_append (gap : Blanks) (items : List (Item Tree)) (rest : List Char) :
    (list gap items).text ++ rest = '[' :: (gap.val ++ (row true items ++ (']' :: rest))) := by
  simp [text]

theorem object_append (gap : Blanks) (members : List (Member Tree)) (rest : List Char) :
    (object gap members).text ++ rest =
      '\x7b' :: (gap.val ++ (memberRow true members ++ ('\x7d' :: rest))) := by
  simp [text]

theorem length_row_cons (first : Bool) (i : Item Tree) (items : List (Item Tree)) :
    (comma first).length + i.value.text.length + (row false items).length ≤
      (row first (i :: items)).length := by
  simp only [row_cons, List.length_append]
  omega

theorem length_memberRow_cons (first : Bool) (m : Member Tree) (members : List (Member Tree)) :
    (comma first).length + m.value.text.length + (memberRow false members).length <
      (memberRow first (m :: members)).length := by
  simp only [memberRow_cons, List.length_append, List.length_cons]
  omega

/-- A list has no more items than characters. -/
theorem length_le_row (first : Bool) (items : List (Item Tree)) :
    items.length ≤ (row first items).length := by
  induction items generalizing first with
  | nil => exact Nat.zero_le _
  | cons i items ih =>
    obtain ⟨c, s, eq, -⟩ := i.value.exists_cons
    have more := length_row_cons first i items
    have rest := ih false
    rw [eq] at more
    simp only [List.length_cons] at more ⊢
    omega

/-- An object has no more members than characters. -/
theorem length_le_memberRow (first : Bool) (members : List (Member Tree)) :
    members.length ≤ (memberRow first members).length := by
  induction members generalizing first with
  | nil => exact Nat.zero_le _
  | cons m members ih =>
    have more := length_memberRow_cons first m members
    have rest := ih false
    rw [List.length_cons]
    omega

end Tree

example : (Tree.list .none [⟨.none, .null, .none⟩, ⟨.none, .flag true, .none⟩]).text =
    "[null,true]".toList := by decide

end ShellSale.Json
