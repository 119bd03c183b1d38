import ShellSale.Proofs.Json.Records
import ShellSale.Proofs.Json.Scanning

/-!
## What readers take

A reader that succeeds has taken one value of JSON with blanks in front of it, whether it keeps what
it takes or skips it. So a text that is read is one value between blanks.

* `Reader.IsStrict`: that a reader takes one value; `Reader.strict_list`, `Layout.strict_reader` and
  their like: the readers of values are strict if those of their parts are.
* `IsDocument`: that a text is one value between blanks; `isDocument_iff`: that it can be skipped.
* `isDocument_of_readText` is the main result.
-/

namespace ShellSale.Json

variable {α β : Type} {s s₁ s₂ rest : List Char}

/-- Whether a reader takes one value of JSON and nothing else. -/
def Reader.IsStrict (r : Reader α) : Prop :=
  ∀ s x rest, r s = .ok (x, rest) → Passes s rest

/-- A value starts behind the blanks of a text. -/
theorem passes_of_skipBlank (h : ∃ t : Tree, skipBlank s = t.text ++ rest) : Passes s rest := by
  obtain ⟨t, eq⟩ := h
  obtain ⟨b, parts⟩ := exists_blanks_of_eq eq
  exact ⟨b, t, parts⟩

/-! ### Items and members -/

/-- Whether a text is a row of items, from the first or from a later one on, in front of a rest. -/
def IsRow (first : Bool) (s rest : List Char) : Prop :=
  ∃ (gap : Blanks) (items : List (Item Tree)), s = gap.val ++ (Tree.row first items ++ rest)

/-- Whether a text is a row of members, from the first or from a later one on, in front of a
rest. -/
def IsMemberRow (first : Bool) (s rest : List Char) : Prop :=
  ∃ (gap : Blanks) (members : List (Member Tree)),
    s = gap.val ++ (Tree.memberRow first members ++ rest)

theorem isRow_nil {first : Bool} (h : ∃ gap : Blanks, s = gap.val ++ rest) :
    IsRow first s rest := by
  obtain ⟨gap, rfl⟩ := h
  exact ⟨gap, [], rfl⟩

/-- A value in front of the rest of a row starts a row. -/
theorem isRow_cons {first : Bool} (found : ∃ gap gap' : Blanks,
      s = gap.val ++ (comma first ++ (gap'.val ++ s₁)))
    (value : Passes s₁ s₂) (row : IsRow false s₂ rest) : IsRow first s rest := by
  obtain ⟨gap, gap', rfl⟩ := found
  obtain ⟨before, t, rfl⟩ := value
  obtain ⟨after, items, rfl⟩ := row
  refine ⟨gap, ⟨gap'.append before, t, after⟩ :: items, ?_⟩
  simp [Tree.row_cons, Blanks.append]

/-- A member in front of the rest of a row starts a row. -/
theorem isMemberRow_cons {first : Bool} (found : ∃ gap gap' : Blanks,
      s = gap.val ++ (comma first ++ (gap'.val ++ ('"' :: s₁))))
    (member : ∃ m : Member Tree, s₁ = m.body s₂) (row : IsMemberRow false s₂ rest) :
    IsMemberRow first s rest := by
  obtain ⟨gap, gap', rfl⟩ := found
  obtain ⟨⟨⟨before, t, -⟩, -, key, behind⟩, rfl⟩ := member
  obtain ⟨after, members, rfl⟩ := row
  refine ⟨gap, ⟨⟨before, t, after⟩, gap', key, behind⟩ :: members, ?_⟩
  simp [Tree.memberRow_cons, Member.body]

theorem passes_list (start : skipBlank s = '[' :: s₁) (row : IsRow true s₁ (']' :: rest)) :
    Passes s rest := by
  obtain ⟨gap, items, rfl⟩ := row
  exact passes_of_skipBlank ⟨.list gap items, start.trans (Tree.list_append gap items rest).symm⟩

theorem passes_object (start : skipBlank s = '\x7b' :: s₁)
    (row : IsMemberRow true s₁ ('\x7d' :: rest)) : Passes s rest := by
  obtain ⟨gap, members, rfl⟩ := row
  exact passes_of_skipBlank
    ⟨.object gap members, start.trans (Tree.object_append gap members rest).symm⟩

/-! ### What stands next -/

/-- What a text starts with up to what stands next: a closing bracket, or blanks, a comma unless the
item is the first, and what an item starts with. -/
def Next.Stands (close : Char) (lead : List Char) (first : Bool) (s : List Char) : Next → Prop
  | .closed rest => ∃ gap : Blanks, s = gap.val ++ (close :: rest)
  | .item rest => ∃ gap gap' : Blanks, s = gap.val ++ (comma first ++ (gap'.val ++ (lead ++ rest)))

theorem stands_nextElement {first : Bool} {next : Next} (h : nextElement first s = .ok next) :
    next.Stands ']' [] first s := by
  rw [nextElement] at h
  split at h
  · cases h
  · rename_i eq
    obtain rfl := Except.ok.inj h
    exact exists_blanks_of_eq eq
  · rename_i c after _ eq
    obtain ⟨gap, rfl⟩ := exists_blanks_of_eq eq
    -- an item that is not the first needs a comma, and the list may not end behind it
    cases first with
    | true =>
      obtain rfl := Except.ok.inj h
      exact ⟨gap, .none, rfl⟩
    | false =>
      rw [if_neg Bool.false_ne_true] at h
      split at h
      · rename_i comma
        subst comma
        split at h
        · cases h
        · cases h
        · obtain rfl := Except.ok.inj h
          obtain ⟨gap', parts⟩ := exists_blanks after
          exact ⟨gap, gap', congrArg (gap.val ++ ',' :: ·) parts⟩
      · cases h

theorem stands_nextKey {first : Bool} {next : Next} (h : nextKey first s = .ok next) :
    next.Stands '\x7d' ['"'] first s := by
  rw [nextKey] at h
  split at h
  · cases h
  · rename_i eq
    obtain rfl := Except.ok.inj h
    exact exists_blanks_of_eq eq
  · rename_i c after _ eq
    obtain ⟨gap, rfl⟩ := exists_blanks_of_eq eq
    -- a member that is not the first needs a comma, and the object may not end behind it
    cases first with
    | true =>
      rw [if_pos rfl] at h
      split at h
      · rename_i quote
        subst quote
        obtain rfl := Except.ok.inj h
        exact ⟨gap, .none, rfl⟩
      · cases h
    | false =>
      rw [if_neg Bool.false_ne_true] at h
      split at h
      · rename_i comma
        subst comma
        split at h
        · cases h
        · rename_i eq
          obtain rfl := Except.ok.inj h
          obtain ⟨gap', rfl⟩ := exists_blanks_of_eq eq
          exact ⟨gap, gap', rfl⟩
        · cases h
        · cases h
      · cases h

theorem exists_gap_of_closeList (h : closeList s = .ok rest) :
    ∃ gap : Blanks, s = gap.val ++ (']' :: rest) := by
  rw [closeList] at h
  split at h
  · cases h
  · rename_i eq
    obtain rfl := Except.ok.inj h
    exact exists_blanks_of_eq eq
  · split at h <;> cases h
  · cases h

namespace Reader

variable {r : Reader α}

/-- What is done with a value does not matter. -/
@[simp] theorem isStrict_map_iff {f : α → β} : (r.map f).IsStrict ↔ r.IsStrict := by
  constructor
  · exact fun h s x rest taken => h s (f x) rest (map_eq_ok_iff.mpr ⟨x, taken, rfl⟩)
  · intro h s y rest read
    obtain ⟨x, taken, -⟩ := map_eq_ok_iff.mp read
    exact h s x rest taken

/-! ### Scalars -/

/-- A word behind its first letter. -/
theorem passes_word (t : Tree) {c : Char} {word : List Char} (text : t.text = c :: word)
    (start : skipBlank s = c :: s₁) (read : readWord word s₁ = .ok rest) : Passes s rest :=
  passes_of_skipBlank ⟨t, by rw [start, text, eq_append_of_readWord read]; rfl⟩

theorem strict_flag : flag.IsStrict := by
  intro s x rest read
  rw [flag] at read
  split at read
  · rename_i eq
    obtain ⟨_, word, ⟨⟩⟩ := bind_eq_ok_iff.mp read
    exact passes_word (.flag true) rfl eq word
  · rename_i eq
    obtain ⟨_, word, ⟨⟩⟩ := bind_eq_ok_iff.mp read
    exact passes_word (.flag false) rfl eq word
  · cases read

theorem strict_nothing : nothing.IsStrict := by
  intro s x rest read
  rw [nothing] at read
  split at read
  · rename_i eq
    obtain ⟨_, word, ⟨⟩⟩ := bind_eq_ok_iff.mp read
    exact passes_word .null rfl eq word
  · cases read

/-- What is read as text is a string. -/
theorem exists_string_of_named {expected x : String} (h : named expected s = .ok (x, rest)) :
    ∃ pieces, skipBlank s = '"' :: (stringText pieces ++ rest) := by
  rw [named] at h
  split at h
  · rename_i eq
    obtain ⟨pieces, rfl⟩ := exists_pieces_of_readString h
    exact ⟨pieces, eq⟩
  · cases h

theorem strict_text : text.IsStrict := by
  intro s x rest read
  obtain ⟨pieces, eq⟩ := exists_string_of_named read
  exact passes_of_skipBlank ⟨.string pieces, eq⟩

/-- A numeral is passed over even if only an integer is wanted. -/
theorem exists_literal_of_readNumeral {v : Numeral.Value} (h : readNumeral s = .ok (v, rest)) :
    ∃ l : Literal, s = l.text ++ rest := by
  rw [readNumeral] at h
  split at h
  · cases h
  · rename_i read
    split at h
    · cases h
      exact exists_literal read
    · cases h

theorem strict_natural (bound : Nat) (type : String) : (natural bound type).IsStrict := by
  intro s n rest read
  rw [natural] at read
  split at read
  · cases read
  · rename_i eq
    split at read
    · split at read
      · cases read
      · cases read
      · rename_i numeral
        split at read
        · cases read
          obtain ⟨l, text⟩ := exists_literal_of_readNumeral numeral
          exact passes_of_skipBlank ⟨.number l, eq.trans text⟩
        · cases read
    · cases read

theorem strict_word32 : word32.IsStrict :=
  strict_natural _ _

theorem strict_word64 : word64.IsStrict :=
  strict_natural _ _

/-- Digits alone are a numeral, whatever follows them. -/
theorem strict_word128 : word128.IsStrict := by
  intro s n rest read
  rw [word128] at read
  split at read
  · cases read
  · cases read
  · split at read
    · cases read
    · rename_i whole
      split at read
      · cases read
        obtain ⟨d, canonical, eq⟩ := exists_whole whole
        refine passes_of_skipBlank ⟨.number ⟨false, d, canonical, none, none⟩, eq.trans ?_⟩
        simp [Tree.text, Literal.text]
      · cases read

/-! ### Values of values -/

theorem strict_optional (h : r.IsStrict) : (optional r).IsStrict := by
  intro s x rest read
  rw [optional] at read
  split at read
  · rename_i eq
    obtain ⟨_, word, ⟨⟩⟩ := bind_eq_ok_iff.mp read
    exact passes_word .null rfl eq word
  · -- the blanks are skipped before it is known whether there is a value, and may be skipped again
    obtain ⟨b, t, eq⟩ := isStrict_map_iff.mpr h _ _ _ read
    obtain ⟨b', parts⟩ := exists_blanks_of_eq eq
    exact ⟨b'.append b, t, parts.trans (List.append_assoc _ _ _).symm⟩

/-- A choice is a string, or an object of one member with `null` as its value. -/
theorem strict_choice (choices : List (String × α)) : (choice choices).IsStrict := by
  intro s x rest read
  rw [choice] at read
  split at read
  · cases read
  · rename_i eq
    -- the name as a string
    obtain ⟨⟨name, s₁⟩, string, read⟩ := bind_eq_ok_iff.mp read
    obtain ⟨y, -, read⟩ := bind_eq_ok_iff.mp read
    obtain ⟨-, rfl⟩ := Prod.mk.inj (Except.ok.inj read)
    obtain ⟨pieces, rfl⟩ := exists_pieces_of_readString string
    exact passes_of_skipBlank ⟨.string pieces, eq⟩
  · rename_i eq
    -- the name as the only key of an object
    obtain ⟨⟨name, s₁⟩, string, read⟩ := bind_eq_ok_iff.mp read
    obtain ⟨y, -, read⟩ := bind_eq_ok_iff.mp read
    obtain ⟨s₂, colon, read⟩ := bind_eq_ok_iff.mp read
    obtain ⟨⟨_, s₃⟩, null, read⟩ := bind_eq_ok_iff.mp read
    dsimp only at read
    split at read
    · cases read
    · rename_i closed
      obtain ⟨-, rfl⟩ := Prod.mk.inj (Except.ok.inj read)
      obtain ⟨pieces, start⟩ := exists_string_of_named string
      obtain ⟨gap, rfl⟩ := exists_blanks_of_eq start
      obtain ⟨behind, rfl⟩ := exists_colon colon
      obtain ⟨before, t, rfl⟩ := strict_nothing _ _ _ null
      obtain ⟨after, rfl⟩ := exists_blanks_of_eq closed
      refine passes_object eq ⟨.none, [⟨⟨before, t, after⟩, gap, pieces, behind⟩], ?_⟩
      simp [Tree.memberRow, Blanks.none]
    · cases read
  · cases read

theorem isRow_of_elements (h : r.IsStrict) {turns : Nat} {acc xs : List α}
    (read : elements r turns acc s = .ok (xs, rest)) : IsRow acc.isEmpty s (']' :: rest) := by
  induction turns generalizing acc s with
  | zero => cases read
  | succ turns ih =>
    rw [elements] at read
    obtain ⟨next, found, read⟩ := bind_eq_ok_iff.mp read
    have stands := stands_nextElement found
    cases next with
    | closed after =>
      cases read
      exact isRow_nil stands
    | item s₁ =>
      obtain ⟨⟨x, s₂⟩, taken, more⟩ := bind_eq_ok_iff.mp read
      exact isRow_cons stands (h s₁ x s₂ taken) (ih more)

theorem strict_list (h : r.IsStrict) : (list r).IsStrict := by
  intro s xs rest read
  rw [list] at read
  split at read
  · rename_i eq
    exact passes_list eq (isRow_of_elements h read)
  · cases read

theorem isRow_of_component (h : r.IsStrict) {before : Nat} {x : α}
    (read : component before r s = .ok (x, s₁)) (row : IsRow false s₁ rest) :
    IsRow (before == 0) s rest := by
  rw [component] at read
  obtain ⟨next, found, read⟩ := bind_eq_ok_iff.mp read
  have stands := stands_nextElement found
  cases next with
  | closed after => cases read
  | item s₂ => exact isRow_cons stands (h s₂ x s₁ read) row

theorem strict_pair {q : Reader β} (h : r.IsStrict) (h' : q.IsStrict) : (pair r q).IsStrict := by
  intro s z rest read
  rw [pair] at read
  split at read
  · rename_i eq
    obtain ⟨⟨x, s₁⟩, first, read⟩ := bind_eq_ok_iff.mp read
    obtain ⟨⟨y, s₂⟩, second, read⟩ := bind_eq_ok_iff.mp read
    obtain ⟨s₃, closed, ⟨⟩⟩ := bind_eq_ok_iff.mp read
    have ended : IsRow false s₂ (']' :: rest) := isRow_nil (exists_gap_of_closeList closed)
    exact passes_list eq (isRow_of_component h first (isRow_of_component h' second ended))
  · cases read

end Reader

/-! ### Records -/

namespace Layout

variable {l : Layout α}

/-- **A member of an object** is a key and a value, be its field known or not. -/
theorem exists_body_of_member (h : ∀ f ∈ l.fields, f.read.IsStrict) {given : List String}
    {y : String × (α → α)} (read : l.member given s = .ok (y, rest)) :
    ∃ m : Member Tree, s = m.body rest := by
  rw [member] at read
  obtain ⟨⟨key, s₁⟩, string, read⟩ := bind_eq_ok_iff.mp read
  obtain ⟨pieces, eq⟩ := exists_pieces_of_readString string
  -- what stands behind the key, kept or skipped
  suffices ∃ s₂, readColon s₁ = .ok s₂ ∧ Passes s₂ rest by
    obtain ⟨s₂, colon, before, t, rfl⟩ := this
    obtain ⟨behind, rfl⟩ := exists_colon colon
    exact ⟨⟨⟨before, t, .none⟩, .none, pieces, behind⟩, eq⟩
  dsimp only at read
  split at read
  · rename_i f found
    split at read
    · cases read
    · obtain ⟨s₂, colon, read⟩ := bind_eq_ok_iff.mp read
      obtain ⟨⟨set, s₃⟩, taken, read⟩ := bind_eq_ok_iff.mp read
      obtain ⟨-, rfl⟩ := Prod.mk.inj (Except.ok.inj read)
      exact ⟨s₂, colon, h f (List.mem_of_find?_eq_some found) s₂ set s₃ taken⟩
  · obtain ⟨s₂, colon, read⟩ := bind_eq_ok_iff.mp read
    obtain ⟨s₃, skipped, read⟩ := bind_eq_ok_iff.mp read
    obtain ⟨-, rfl⟩ := Prod.mk.inj (Except.ok.inj read)
    exact ⟨s₂, colon, passes_of_skipValue skipped⟩

theorem isMemberRow_of_members (h : ∀ f ∈ l.fields, f.read.IsStrict) {turns : Nat}
    {given : List String} {x y : α} (read : l.members turns given x s = .ok (y, rest)) :
    IsMemberRow given.isEmpty s ('\x7d' :: rest) := by
  induction turns generalizing given x s with
  | zero => cases read
  | succ turns ih =>
    rw [members] at read
    obtain ⟨next, found, read⟩ := bind_eq_ok_iff.mp read
    have stands := stands_nextKey found
    cases next with
    | closed after =>
      dsimp only at read
      split at read
      · cases read
      · cases read
        obtain ⟨gap, rfl⟩ := stands
        exact ⟨gap, [], rfl⟩
    | item s₁ =>
      obtain ⟨⟨⟨key, set⟩, s₂⟩, taken, more⟩ := bind_eq_ok_iff.mp read
      exact isMemberRow_cons stands (exists_body_of_member h taken) (ih more)

theorem isRow_of_values {fields : List (Field α)} (h : ∀ f ∈ fields, f.read.IsStrict)
    {before : Nat} {x y : α} (read : l.values before fields x s = .ok (y, rest)) :
    IsRow (before == 0) s (']' :: rest) := by
  induction fields generalizing before x s with
  | nil =>
    obtain ⟨after, closed, read⟩ := bind_eq_ok_iff.mp read
    cases read
    exact isRow_nil (exists_gap_of_closeList closed)
  | cons f fields ih =>
    obtain ⟨strict, others⟩ := List.forall_mem_cons.mp h
    rw [values] at read
    obtain ⟨next, found, read⟩ := bind_eq_ok_iff.mp read
    have stands := stands_nextElement found
    cases next with
    | closed after =>
      dsimp only at read
      split at read
      · cases read
      · cases read
        exact isRow_nil stands
    | item s₁ =>
      obtain ⟨⟨set, s₂⟩, taken, more⟩ := bind_eq_ok_iff.mp read
      exact isRow_cons stands (strict s₁ set s₂ taken) (ih others more)

/-- **A record** is a list or an object. -/
theorem strict_reader (h : ∀ f ∈ l.fields, f.read.IsStrict) : l.reader.IsStrict := by
  intro s x rest read
  rw [reader] at read
  split at read
  · rename_i eq
    exact passes_list eq (isRow_of_values h read)
  · rename_i eq
    exact passes_object eq (isMemberRow_of_members h read)
  · cases read

end Layout

/-! ### Texts -/

/-- Whether a text is one value of JSON between blanks. -/
def IsDocument (text : String) : Prop :=
  ∃ before t after, text = Tree.document before t after

theorem isDocument_of_passes {text : String} (h : Passes text.toList rest)
    (blank : skipBlank rest = []) : IsDocument text := by
  obtain ⟨before, t, parts⟩ := h
  obtain ⟨after, eq⟩ := exists_blanks_of_eq blank
  refine ⟨before, t, after, String.ofList_toList.symm.trans ?_⟩
  rw [Tree.document, parts, eq, List.append_nil]

/-- What may be skipped with nothing but blanks behind it is one value between blanks. -/
theorem isDocument_iff (text : String) :
    IsDocument text ↔ (skipValue text.toList).toOption.map skipBlank = some [] := by
  constructor
  · rintro ⟨before, t, after, rfl⟩
    have blank : skipBlank after.val = [] := skipBlank_val after
    have ends : Ends after.val := Tree.ends_of_skipBlank (blank ▸ trivial)
    rw [Tree.document, String.toList_ofList, skipValue_text before t ends]
    exact congrArg some blank
  · intro h
    cases skipped : skipValue text.toList with
    | error e =>
      rw [skipped] at h
      cases h
    | ok rest =>
      rw [skipped] at h
      exact isDocument_of_passes (passes_of_skipValue skipped) (Option.some.inj h)

instance (text : String) : Decidable (IsDocument text) :=
  decidable_of_iff _ (isDocument_iff text).symm

example : IsDocument " \x7b\"x\":[null,1e5]\x7d\n" ∧ ¬IsDocument "\x7b\"x\":[null,1e]\x7d" := by
  decide

/-- **A text that is read** is one value between blanks. -/
theorem isDocument_of_readText {r : Reader α} (h : r.IsStrict) {text : String} {x : α}
    (read : readText r text = .ok x) : IsDocument text := by
  rw [readText] at read
  obtain ⟨⟨y, rest⟩, taken, read⟩ := bind_eq_ok_iff.mp read
  dsimp only at read
  split at read
  · rename_i blank
    exact isDocument_of_passes (h _ _ _ taken) blank
  · cases read

end ShellSale.Json
