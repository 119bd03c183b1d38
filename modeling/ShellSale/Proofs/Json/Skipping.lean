import ShellSale.Json.Skip
import ShellSale.Proofs.Json.Numerals
import ShellSale.Proofs.Json.Strings

/-!
## Skipping values

A value is skipped to its end, however deep it is nested, without regard to what its strings and
numerals stand for. A turn of the skipper passes over at least one character, so as many turns as
there are characters are enough.

* `SkipState.Leads`: what a number of turns does.
* `SkipState.leads_tree`: the turns that skip one value.
* `skipValue_text` is the main result.
-/

namespace ShellSale.Json

theorem skipScalar_number (l : Literal) {rest : List Char} (h : Ends rest) :
    skipScalar (l.text ++ rest) = .ok rest := by
  have read := l.read_text h
  obtain ⟨c, s, eq, numeral⟩ := l.exists_cons
  have n := ne_of_numeral (d := 'n') numeral (by decide) rfl
  have t := ne_of_numeral (d := 't') numeral (by decide) rfl
  have f := ne_of_numeral (d := 'f') numeral (by decide) rfl
  have quote := ne_of_numeral (d := '"') numeral (by decide) rfl
  rw [eq, List.cons_append] at read ⊢
  rw [skipScalar.eq_def]
  simp [numeral, read]

namespace SkipState

/-- Whether a number of turns leads from one state to another. -/
def Leads (turns : Nat) (s s' : SkipState) : Prop :=
  ∀ more, run (more + turns) s = run more s'

variable {opened : List Bracket} {rest : List Char}

theorem Leads.trans {m n : Nat} {s s' s'' : SkipState} (h : Leads m s s') (h' : Leads n s' s'') :
    Leads (n + m) s s'' := by
  intro more
  rw [← Nat.add_assoc, h, h']

theorem leads_of_startValue {s : List Char} {s' : SkipState}
    (h : startValue opened s = .ok s') : Leads 1 ⟨true, opened, s⟩ s' := by
  intro more
  show (do run more (← startValue opened s)) = _
  rw [h]
  rfl

theorem leads_of_endValue {b : Bracket} {s : List Char} {s' : SkipState}
    (h : endValue b opened s = .ok s') : Leads 1 ⟨false, b :: opened, s⟩ s' := by
  intro more
  show (do run more (← endValue b opened s)) = _
  rw [h]
  rfl

theorem startValue_scalar {c : Char} {s : List Char} (blank : isBlank c = false) (list : c ≠ '[')
    (object : c ≠ '\x7b') (h : skipScalar (c :: s) = .ok rest) :
    startValue opened (c :: s) = .ok ⟨false, opened, rest⟩ := by
  rw [startValue, skipBlank_of_not_blank blank]
  split
  · contradiction
  · rename_i eq
    exact absurd (List.cons.inj eq).1 list
  · rename_i eq
    exact absurd (List.cons.inj eq).1 object
  · rw [h]
    rfl

/-- Whether a value can be skipped in as many turns as it has characters, wherever it stands. -/
def Skips (t : Tree) : Prop :=
  ∀ (opened : List Bracket) (b : Blanks) (rest : List Char), Ends rest →
    ∃ turns ≤ t.text.length, Leads turns ⟨true, opened, b.val ++ (t.text ++ rest)⟩
      ⟨false, opened, rest⟩

theorem skips_scalar {t : Tree} (h : ∀ (opened : List Bracket) (rest : List Char), Ends rest →
    startValue opened (t.text ++ rest) = .ok ⟨false, opened, rest⟩) : Skips t := by
  intro opened b rest ends
  have start : startValue opened (b.val ++ (t.text ++ rest)) = .ok ⟨false, opened, rest⟩ := by
    rw [← h opened rest ends, startValue, startValue, skipBlank_append]
  obtain ⟨c, s, eq, -⟩ := t.exists_cons
  exact ⟨1, by rw [eq]; exact Nat.succ_pos _, leads_of_startValue start⟩

end SkipState

/-! ### Brackets -/

/-- The character that closes a bracket. -/
def Bracket.close : Bracket → Char
  | list => ']'
  | object => '\x7d'

/-- A value in a bracket: what leads to it, be it blanks or a key and a colon between blanks, and
what follows. -/
structure Entry where
  lead : List Char
  value : Tree
  after : Blanks

namespace Entry

/-- The text of values in a bracket, from the first or from a later one on. -/
def row : Bool → List Entry → List Char
  | _, [] => []
  | first, e :: rest => comma first ++ (e.lead ++ (e.value.text ++ (e.after.val ++ row false rest)))

/-- Whether what leads to a value does so in a bracket, behind a comma and behind its start. -/
structure Within (b : Bracket) (e : Entry) : Prop where
  reached : ∀ s, ∃ gap : Blanks, skipToValue b (e.lead ++ (e.value.text ++ s)) =
    .ok (gap.val ++ (e.value.text ++ s))
  entered : ∀ (before : Blanks) (opened : List Bracket) (s : List Char), ∃ gap : Blanks,
    SkipState.enter b opened (before.val ++ (e.lead ++ (e.value.text ++ s))) =
      .ok ⟨true, b :: opened, gap.val ++ (e.value.text ++ s)⟩

/-- An item of a list. -/
def ofItem (i : Item Tree) : Entry :=
  ⟨i.before.val, i.value, i.after⟩

/-- A member of an object. -/
def ofMember (m : Member Tree) : Entry :=
  ⟨m.gap.val ++ ('"' :: (stringText m.key ++ (m.behind.val ++ (':' :: m.before.val)))), m.value,
    m.after⟩

theorem row_ofItem (first : Bool) (items : List (Item Tree)) :
    Tree.row first items = row first (items.map ofItem) := by
  induction items generalizing first with
  | nil => rfl
  | cons i items ih => rw [Tree.row_cons, ih, List.map_cons, row, ofItem]

theorem row_ofMember (first : Bool) (members : List (Member Tree)) :
    Tree.memberRow first members = row first (members.map ofMember) := by
  induction members generalizing first with
  | nil => rfl
  | cons m members ih =>
    rw [Tree.memberRow_cons, ih, List.map_cons, row, ofMember]
    simp only [List.append_assoc, List.cons_append]

theorem within_ofItem (i : Item Tree) : Within .list (ofItem i) where
  reached s := ⟨i.before, rfl⟩
  entered before opened s := by
    refine ⟨.none, ?_⟩
    obtain ⟨c, t, eq, opens⟩ := i.value.exists_cons
    simp only [ofItem, SkipState.enter, skipBlank_append, eq, List.cons_append,
      skipBlank_of_not_blank opens.blank, Bracket.isClosedBy, opens.list, decide_false]
    rfl

theorem within_ofMember (m : Member Tree) : Within .object (ofMember m) where
  reached s := by
    refine ⟨m.before, ?_⟩
    simp only [ofMember, skipToValue, skipKey, List.append_assoc, List.cons_append,
      skipBlank_append, skipBlank_of_not_blank (show isBlank '"' = false from rfl),
      skipString_text, bind, Except.bind, readColon,
      skipBlank_of_not_blank (show isBlank ':' = false from rfl)]
  entered before opened s := by
    refine ⟨m.before, ?_⟩
    simp only [ofMember, SkipState.enter, skipToValue, skipKey, List.append_assoc, List.cons_append,
      skipBlank_append, skipBlank_of_not_blank (show isBlank '"' = false from rfl), skipString_text,
      readColon, skipBlank_of_not_blank (show isBlank ':' = false from rfl), bind, Except.bind]
    rfl

end Entry

namespace SkipState

variable {b : Bracket} {es : List Entry} {opened : List Bracket} {rest : List Char}

theorem ends_row (gap : Blanks) (b : Bracket) (es : List Entry) (rest : List Char) :
    Ends (gap.val ++ (Entry.row false es ++ (b.close :: rest))) := by
  refine Tree.ends_append gap ?_
  cases es with
  | nil =>
    cases b with
    | list => exact Or.inr (Or.inr (Or.inl rfl))
    | object => exact Or.inr (Or.inr (Or.inr rfl))
  | cons e es => exact Or.inr (Or.inl rfl)

/-- From behind a value in a bracket to the end of the bracket. -/
theorem leads_row (within : ∀ e ∈ es, e.Within b) (skips : ∀ e ∈ es, Skips e.value)
    (gap : Blanks) (opened : List Bracket) (rest : List Char) :
    ∃ turns ≤ (Entry.row false es).length + 1,
      Leads turns ⟨false, b :: opened, gap.val ++ (Entry.row false es ++ (b.close :: rest))⟩
        ⟨false, opened, rest⟩ := by
  induction es generalizing gap with
  | nil =>
    refine ⟨1, Nat.le_refl _, leads_of_endValue ?_⟩
    rw [endValue, skipBlank_append]
    cases b <;> rfl
  | cons e es ih =>
    obtain ⟨behind, within⟩ := List.forall_mem_cons.mp within
    obtain ⟨skipped, skips⟩ := List.forall_mem_cons.mp skips
    -- skipping goes over the comma to the value, over the value, and on behind it
    obtain ⟨last, few, finishes⟩ := ih within skips e.after
    obtain ⟨before, reached⟩ :=
      behind.reached (e.after.val ++ (Entry.row false es ++ (b.close :: rest)))
    obtain ⟨turns, fewer, passes⟩ := skipped (b :: opened) before _ (ends_row e.after b es rest)
    have goes : endValue b opened (gap.val ++ (Entry.row false (e :: es) ++ (b.close :: rest))) =
        .ok ⟨true, b :: opened, before.val ++ (e.value.text ++ (e.after.val ++
          (Entry.row false es ++ (b.close :: rest))))⟩ := by
      rw [endValue, skipBlank_append]
      simp only [Entry.row, comma_false, List.cons_append, List.nil_append, List.append_assoc,
        skipBlank_of_not_blank (show isBlank ',' = false from rfl), if_true, reached]
      rfl
    refine ⟨last + (turns + 1), ?_, ((leads_of_endValue goes).trans passes).trans finishes⟩
    simp only [Entry.row, comma_false, List.length_append, List.length_singleton]
    omega

/-- From the start of a bracket to its end. -/
theorem leads_bracket (within : ∀ e ∈ es, e.Within b) (skips : ∀ e ∈ es, Skips e.value)
    {gap : Blanks} {s : List Char} (start : startValue opened s =
      enter b opened (gap.val ++ (Entry.row true es ++ (b.close :: rest)))) :
    ∃ turns ≤ (Entry.row true es).length + 2,
      Leads turns ⟨true, opened, s⟩ ⟨false, opened, rest⟩ := by
  cases es with
  | nil =>
    refine ⟨1, Nat.le_add_left _ _, leads_of_startValue (start.trans ?_)⟩
    rw [enter, skipBlank_append]
    cases b <;> rfl
  | cons e es =>
    obtain ⟨behind, within⟩ := List.forall_mem_cons.mp within
    obtain ⟨skipped, skips⟩ := List.forall_mem_cons.mp skips
    -- skipping enters the bracket, goes over the first value, and on behind it
    obtain ⟨last, few, finishes⟩ := leads_row within skips e.after opened rest
    obtain ⟨before, entered⟩ :=
      behind.entered gap opened (e.after.val ++ (Entry.row false es ++ (b.close :: rest)))
    obtain ⟨turns, fewer, passes⟩ := skipped (b :: opened) before _ (ends_row e.after b es rest)
    have goes : startValue opened s = .ok ⟨true, b :: opened, before.val ++ (e.value.text ++
        (e.after.val ++ (Entry.row false es ++ (b.close :: rest))))⟩ := by
      rw [start, ← entered]
      simp only [Entry.row, comma_true, List.nil_append, List.append_assoc]
    refine ⟨last + (turns + 1), ?_, ((leads_of_startValue goes).trans passes).trans finishes⟩
    simp only [Entry.row, List.length_append]
    omega

/-! ### Values -/

/-- Every value can be skipped. -/
theorem skips_tree (t : Tree) : Skips t := by
  induction t using Tree.induct with
  | null => exact skips_scalar fun _ _ _ => rfl
  | flag b => cases b <;> exact skips_scalar fun _ _ _ => rfl
  | number l =>
    refine skips_scalar fun opened rest ends => ?_
    have scalar := skipScalar_number l ends
    obtain ⟨c, s, eq, numeral⟩ := l.exists_cons
    rw [Tree.text]
    rw [eq, List.cons_append] at scalar ⊢
    exact startValue_scalar (opens_of_numeral numeral).blank
      (ne_of_numeral numeral (by decide) rfl) (ne_of_numeral numeral (by decide) rfl) scalar
  | string pieces =>
    refine skips_scalar fun opened rest ends => ?_
    exact startValue_scalar rfl (by decide) (by decide) (skipString_text pieces rest)
  | list gap items skips =>
    intro opened before rest ends
    have start : startValue opened (before.val ++ ((Tree.list gap items).text ++ rest)) =
        enter .list opened (gap.val ++ (Entry.row true (items.map .ofItem) ++ (']' :: rest))) := by
      rw [startValue, Tree.skipBlank_text, Tree.list_append, Entry.row_ofItem]
      rfl
    obtain ⟨turns, few, leads⟩ := leads_bracket (b := .list)
      (List.forall_mem_map.mpr fun i _ => Entry.within_ofItem i)
      (List.forall_mem_map.mpr skips) start
    refine ⟨turns, ?_, leads⟩
    rw [← Entry.row_ofItem] at few
    simp only [Tree.text, List.length_cons, List.length_append]
    omega
  | object gap members skips =>
    intro opened before rest ends
    have start : startValue opened (before.val ++ ((Tree.object gap members).text ++ rest)) =
        enter .object opened
          (gap.val ++ (Entry.row true (members.map .ofMember) ++ ('\x7d' :: rest))) := by
      rw [startValue, Tree.skipBlank_text, Tree.object_append, Entry.row_ofMember]
      rfl
    obtain ⟨turns, few, leads⟩ := leads_bracket (b := .object)
      (List.forall_mem_map.mpr fun m _ => Entry.within_ofMember m) (List.forall_mem_map.mpr skips)
      start
    refine ⟨turns, ?_, leads⟩
    rw [← Entry.row_ofMember] at few
    simp only [Tree.text, List.length_cons, List.length_append]
    omega

end SkipState

/-- **Skipping a value** ends behind it. -/
theorem skipValue_text (b : Blanks) (t : Tree) {rest : List Char} (ends : Ends rest) :
    skipValue (b.val ++ (t.text ++ rest)) = .ok rest := by
  obtain ⟨turns, few, leads⟩ := SkipState.skips_tree t [] b rest ends
  have enough : turns ≤ (b.val ++ (t.text ++ rest)).length := by
    simp only [List.length_append]
    omega
  have skipped := leads ((b.val ++ (t.text ++ rest)).length - turns)
  rw [Nat.sub_add_cancel enough] at skipped
  rw [skipValue, skipped, SkipState.run]

end ShellSale.Json
