import ShellSale.Proofs.Json.Schemas

/-!
## What can be written

Every text can be written, every number that fits its type, every list of what can be written, and
every record whose fields can be written, all of them given.

* `spells_ofText`: a string that spells a text.
* `Literal.ofNat`: the numeral of a natural number.
* `Schema.exists_members`: an object that gives all fields of a record.
-/

namespace ShellSale.Json

/-! ### Strings -/

/-- A control character is written by its number. -/
theorem unit?_of_isControl {c : Char} (h : isControl c = true) :
    unit? '0' '0' (Nat.digitChar (c.toNat / 16)) (Nat.digitChar (c.toNat % 16)) =
      some c.toNat := by
  have all : ∀ n < 0x20,
      unit? '0' '0' (Nat.digitChar (n / 16)) (Nat.digitChar (n % 16)) = some n := by decide
  rw [isControl, decide_eq_true_eq] at h
  exact all c.toNat h

/-- A character as a piece of a string, by an escape only if it needs one. -/
def Piece.ofChar (c : Char) : Piece :=
  if control : isControl c = true then
    .unit '0' '0' _ _ c.toNat (unit?_of_isControl control)
  else if quote : c = '"' then .short '"' '"' rfl
  else if escape : c = '\\' then .short '\\' '\\' rfl
  else .plain c ⟨Bool.eq_false_iff.mpr control, quote, escape⟩

/-- A text as the pieces of a string. -/
def Piece.ofText (s : String) : List Piece :=
  s.toList.map .ofChar

theorem spells_cons_ofChar (c : Char) {pieces : List Piece} {s : List Char}
    (h : Spells pieces s) : Spells (.ofChar c :: pieces) (c :: s) := by
  unfold Piece.ofChar
  split
  · exact .unit h
  · split
    · rename_i quote
      subst quote
      exact .short h
    · split
      · rename_i escape
        subst escape
        exact .short h
      · exact .plain h

theorem spells_ofText (s : String) : Spells (Piece.ofText s) s.toList := by
  rw [Piece.ofText]
  induction s.toList with
  | nil => exact .nil
  | cons c s ih => exact spells_cons_ofChar c ih

theorem Spells.append {pieces pieces' : List Piece} {s s' : List Char} (h : Spells pieces s)
    (h' : Spells pieces' s') : Spells (pieces ++ pieces') (s ++ s') := by
  induction h with
  | nil => exact h'
  | plain _ ih => exact .plain ih
  | short _ ih => exact .short ih
  | unit _ ih => exact .unit ih
  | pair beyond _ ih => exact .pair beyond ih

/-! ### Numbers -/

/-- The digits of a number have no needless zeros. -/
theorem toDigits_canonical (n : Nat) :
    (Nat.toDigits 10 n).head? = some '0' → Nat.toDigits 10 n = ['0'] := by
  induction n using Nat.strongRecOn with
  | ind n ih =>
    intro zero
    by_cases small : n < 10
    · have digit : ∀ n < 10, Nat.digitChar n = '0' → n = 0 := by decide
      rw [Nat.toDigits_of_lt_base small] at zero
      obtain rfl := digit n small (Option.some.inj zero)
      rfl
    · -- the first digit of `n` is that of its tenth, which is not zero
      have positive : 0 < n / 10 := by omega
      have split := Nat.toDigits_append_toDigits (b := 10) (by decide) positive
        (Nat.mod_lt n (by decide))
      rw [Nat.div_add_mod] at split
      rw [← split, List.head?_append_of_ne_nil _ Nat.toDigits_ne_nil] at zero
      have tenth := ih (n / 10) (by omega) zero
      have value : Nat.ofDigitChars 10 (Nat.toDigits 10 (n / 10)) 0 = n / 10 :=
        Nat.ofDigitChars_ten_toDigits
      rw [tenth] at value
      exact absurd value.symm (Nat.ne_of_gt positive)

/-- The numeral of a natural number. -/
def Literal.ofNat (n : Nat) : Literal where
  negative := false
  whole := ⟨Nat.toDigits 10 n, Nat.toDigits_ne_nil, fun _ => isDigit_of_mem_toDigits⟩
  canonical := toDigits_canonical n
  fraction := none
  exponent := none

theorem Literal.text_ofNat (n : Nat) : (Literal.ofNat n).text = Nat.toDigits 10 n :=
  List.append_nil _

/-! ### Values -/

/-- An item without blanks. -/
def Item.of (t : Tree) : Item Tree :=
  ⟨.none, t, .none⟩

/-- A member without blanks. -/
def Member.of (name : String) (t : Tree) : Member Tree :=
  ⟨.of t, .none, Piece.ofText name, .none⟩

@[simp] theorem isNamed_of_iff (name : String) (t : Tree) (name' : String) :
    (Member.of name t).IsNamed name' ↔ name = name' := by
  constructor
  · exact (show (Member.of name t).IsNamed name from spells_ofText name).unique
  · rintro rfl
    exact spells_ofText name

namespace Format

variable {α β : Type}

/-- Whether something is written by some value. -/
def Expresses (F : Format α) (x : α) : Prop :=
  ∃ t, F.writes x t

theorem expresses_flag (b : Bool) : flag.Expresses b :=
  ⟨.flag b, rfl⟩

theorem expresses_text (s : String) : text.Expresses s :=
  ⟨.string (Piece.ofText s), _, rfl, spells_ofText s⟩

theorem expresses_natural {bound n : Nat} (h : n < bound) : (natural bound).Expresses n :=
  ⟨.number (.ofNat n), h, _, rfl, Literal.text_ofNat n⟩

theorem expresses_choice {choices : List (String × α)} {name : String} {x : α}
    (h : (name, x) ∈ choices) : (choice choices).Expresses x :=
  ⟨.string (Piece.ofText name), name, h, Or.inl ⟨_, rfl, spells_ofText name⟩⟩

theorem expresses_optional_natural {bound : Nat} {x : Option Nat} (h : ∀ n ∈ x, n < bound) :
    (natural bound).optional.Expresses x := by
  cases x with
  | none => exact ⟨.null, rfl⟩
  | some n =>
    refine ⟨.number (.ofNat n), ?_, h n rfl, _, rfl, Literal.text_ofNat n⟩
    rintro ⟨⟩

theorem expresses_list {F : Format α} {xs : List α} (h : ∀ x ∈ xs, F.Expresses x) :
    F.list.Expresses xs := by
  obtain ⟨items, written⟩ : ∃ items : List (Item Tree),
      List.Forall₂ (fun x i => F.writes x i.value) xs items := by
    induction xs with
    | nil => exact ⟨[], .nil⟩
    | cons x xs ih =>
      obtain ⟨here, later⟩ := List.forall_mem_cons.mp h
      obtain ⟨t, wrote⟩ := here
      obtain ⟨items, written⟩ := ih later
      exact ⟨.of t :: items, .cons wrote written⟩
  exact ⟨.list .none items, .none, items, rfl, written⟩

theorem expresses_pair {F : Format α} {G : Format β} {x : α × β} (first : F.Expresses x.1)
    (second : G.Expresses x.2) : (F.pair G).Expresses x := by
  obtain ⟨t, wrote⟩ := first
  obtain ⟨t', wrote'⟩ := second
  exact ⟨.list .none [.of t, .of t'], .none, .of t, .of t', rfl, wrote, wrote'⟩

end Format

/-! ### Records -/

namespace Schema

variable {α : Type} {d : Schema α} {y : α}

/-- **A record whose fields can be written** is written by an object that gives all of them. -/
theorem exists_members (names : (d.slots.map (·.name)).Nodup)
    (h : ∀ s ∈ d.slots, s.format.Expresses (s.get y)) :
    ∃ members, d.Fills [] d.start y members ∧
      ∀ s ∈ d.slots, ∃ m ∈ members, m.IsNamed s.name := by
  -- each field has a writing of its own, and the object gives them all
  have written : ∀ s : Slot α, ∃ t, s ∈ d.slots → s.format.writes (s.get y) t := by
    intro s
    by_cases known : s ∈ d.slots
    · obtain ⟨t, wrote⟩ := h s known
      exact ⟨t, fun _ => wrote⟩
    · exact ⟨.null, fun mem => absurd mem known⟩
  choose value writes using written
  have given : ∀ s ∈ d.slots, ∃ m ∈ d.slots.map fun s => Member.of s.name (value s),
      m.IsNamed s.name := fun s known =>
    ⟨_, List.mem_map_of_mem known, (isNamed_of_iff _ _ _).mpr rfl⟩
  refine ⟨_, ⟨⟨?_, ?_, ?_⟩, ?_, ?_⟩, given⟩
  · intro m mem
    obtain ⟨s, -, rfl⟩ := List.mem_map.mp mem
    exact ⟨s.name, (isNamed_of_iff _ _ _).mpr rfl⟩
  · -- two members of one name would be two fields of one name
    intro s _
    apply List.pairwise_map.mpr
    refine (List.pairwise_map.mp names).imp fun {a b} ne => ?_
    simp only [isNamed_of_iff]
    exact fun ⟨same, same'⟩ => ne (same.trans same'.symm)
  · exact fun s _ earlier => absurd earlier List.not_mem_nil
  · intro s known m mem named
    obtain ⟨s', known', rfl⟩ := List.mem_map.mp mem
    obtain rfl := List.inj_on_of_nodup_map names known' known ((isNamed_of_iff _ _ _).mp named)
    exact writes s' known'
  · intro s known absent
    obtain ⟨m, mem, named⟩ := given s known
    exact absurd named (absent m mem)

theorem expresses (names : (d.slots.map (·.name)).Nodup)
    (h : ∀ s ∈ d.slots, s.format.Expresses (s.get y)) : d.format.Expresses y := by
  obtain ⟨members, fills, -⟩ := exists_members names h
  exact ⟨.object .none members, (writes_object_iff .none).mpr fills⟩

end Schema

end ShellSale.Json
