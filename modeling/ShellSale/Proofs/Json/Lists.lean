import Mathlib.Data.List.Nodup
import ShellSale.Proofs.Json.Formats

/-!
## Lists, pairs, choices and whole texts

The readers of values that are put together from others read the formats that are put together in
the same way. Where a reader of a part stops inside a value, the reader of the whole goes no
further.

* `Format.readBy_optional`, `Format.readBy_list`, `Format.readBy_pair`, `Format.readBy_choice`: the
  readers of these values read their formats.
* `readText_iff`: what is read of a whole text.
-/

namespace ShellSale.Json

/-! ### Items -/

theorem nextElement_close (first : Bool) (gap : Blanks) (rest : List Char) :
    nextElement first (gap.val ++ (']' :: rest)) = .ok (.closed rest) := by
  rw [nextElement, skipBlank_append, skipBlank_of_not_blank rfl]
  rfl

theorem nextElement_item (first : Bool) (gap before : Blanks) (t : Tree) (rest : List Char) :
    nextElement first (gap.val ++ (comma first ++ (before.val ++ (t.text ++ rest)))) =
      .ok (.item (t.text ++ rest)) := by
  obtain ⟨c, s, eq, opens⟩ := t.exists_cons
  -- a value begins with a character that neither ends the list nor is a comma
  have start := t.skipBlank_text before rest
  rw [eq, List.cons_append] at start ⊢
  rw [nextElement, skipBlank_append]
  cases first with
  | true =>
    rw [comma_true, List.nil_append, start]
    split
    · contradiction
    · rename_i h
      exact absurd (List.cons.inj h).1 opens.list
    · rename_i h
      obtain ⟨rfl, rfl⟩ := List.cons.inj h
      rfl
  | false =>
    rw [comma_false, List.singleton_append, skipBlank_of_not_blank rfl]
    split
    · contradiction
    · rename_i h
      exact absurd (List.cons.inj h).1 (by decide)
    · rename_i h
      obtain ⟨rfl, rfl⟩ := List.cons.inj h
      simp only [Bool.false_eq_true, if_false, if_true, start]
      split
      · contradiction
      · rename_i h
        exact absurd (List.cons.inj h).1 opens.list
      · rfl

/-- Behind the first item, a list goes on only as it may behind a value. -/
theorem ends_of_nextElement {s : List Char} {next : Next} (h : nextElement false s = .ok next) :
    Ends s := by
  refine Tree.ends_of_skipBlank ?_
  rw [nextElement] at h
  split at h
  · cases h
  · rename_i eq
    rw [eq]
    exact Or.inr (Or.inr (Or.inl rfl))
  · rename_i c rest _ eq
    rw [if_neg Bool.false_ne_true] at h
    split at h
    · rename_i comma
      rw [eq]
      exact Or.inr (Or.inl comma)
    · cases h

theorem ends_of_closeList {s rest : List Char} (h : closeList s = .ok rest) : Ends s := by
  refine Tree.ends_of_skipBlank ?_
  rw [closeList] at h
  split at h
  · cases h
  · rename_i eq
    rw [eq]
    exact Or.inr (Or.inr (Or.inl rfl))
  · rename_i eq
    rw [eq]
    exact Or.inr (Or.inl rfl)
  · cases h

theorem closeList_row_iff (first : Bool) (gap : Blanks) (items : List (Item Tree))
    (rest s : List Char) :
    closeList (gap.val ++ (Tree.row first items ++ (']' :: rest))) = .ok s ↔
      items = [] ∧ s = rest := by
  rw [closeList, skipBlank_append]
  cases items with
  | nil =>
    rw [Tree.row, List.nil_append, skipBlank_of_not_blank rfl]
    simp [eq_comm]
  | cons i items =>
    refine iff_of_false (fun h => ?_) fun h => List.cons_ne_nil _ _ h.1
    -- what stands at an item is not the end of the list
    obtain ⟨c, s', eq, opens⟩ := i.value.exists_cons
    have start := i.value.skipBlank_text i.before
      (i.after.val ++ (Tree.row false items ++ (']' :: rest)))
    rw [eq, List.cons_append] at start
    rw [Tree.row_cons, eq] at h
    cases first with
    | true =>
      simp only [comma_true, List.nil_append, List.append_assoc, List.cons_append, start] at h
      split at h
      · cases h
      · rename_i closed
        exact opens.list (List.cons.inj closed).1
      · rename_i closed
        exact opens.comma (List.cons.inj closed).1
      · cases h
    | false =>
      rw [comma_false, List.singleton_append, List.cons_append, skipBlank_of_not_blank rfl] at h
      simp only at h
      split at h <;> cases h

namespace Format

variable {α β : Type} {F : Format α} {r : Reader α}

/-! ### Optional values -/

/-- An optional value is written by `null` if it is absent. -/
def optional (F : Format α) : Format (Option α) where
  writes x t := match x with
    | none => t = .null
    | some x => t ≠ .null ∧ F.writes x t
  spoils fault t := t ≠ .null ∧ F.spoils fault t
  unwritten := by
    rintro fault t ⟨some, spoiled⟩ (_ | x) written
    · exact some written
    · exact F.unwritten spoiled x written.2

theorem readBy_optional (h : F.ReadBy r) : F.optional.ReadBy (.optional r) := by
  refine readBy_of ?_ ?_
  · rintro t (_ | x) written b rest ends
    · obtain rfl := written
      rw [Reader.optional, Tree.skipBlank_text]
      rfl
    · obtain ⟨some, written⟩ := written
      rw [Reader.optional, Tree.skipBlank_text]
      -- a value that is not nothing does not begin like `null`
      split
      · rename_i eq
        exact absurd (Tree.eq_null_of_append eq) some
      · have read := h.reads written .none ends
        rw [Reader.map, show r (t.text ++ rest) = _ from read]
  · intro t b rest x s ends read behind
    rw [Reader.optional, Tree.skipBlank_text] at read
    split at read
    · rename_i after eq
      obtain rfl := Tree.eq_null_of_append eq
      obtain rfl : 'u' :: 'l' :: 'l' :: rest = after := (List.cons.inj eq).2
      cases read
      exact ⟨rfl, rfl⟩
    · rename_i some
      rw [Reader.map] at read
      split at read
      · rename_i x' s' parsed
        obtain ⟨rfl, rfl⟩ := Prod.mk.inj (Except.ok.inj read)
        obtain ⟨written, rfl⟩ := (h.read_iff t ends x' s').mp ⟨parsed, behind⟩
        refine ⟨⟨?_, written⟩, rfl⟩
        rintro rfl
        exact some _ rfl
      · cases read

/-! ### Lists -/

theorem exists_of_forall₂ {R : α → β → Prop} {xs : List α} {ys : List β} {y : β}
    (h : List.Forall₂ R xs ys) (mem : y ∈ ys) : ∃ x, R x y := by
  induction h with
  | nil => cases mem
  | cons related _ ih =>
    rcases List.mem_cons.mp mem with rfl | mem
    · exact ⟨_, related⟩
    · exact ih mem

/-- A list is written item by item. -/
def list (F : Format α) : Format (List α) where
  writes xs t := ∃ gap items, t = .list gap items ∧
    List.Forall₂ (fun x (i : Item Tree) => F.writes x i.value) xs items
  spoils fault t := ∃ gap items, t = .list gap items ∧ ∃ i ∈ items, F.spoils fault i.value
  unwritten := by
    rintro fault _ ⟨gap, items, rfl, i, mem, spoiled⟩ xs ⟨_, _, ⟨⟩, written⟩
    obtain ⟨x, wrote⟩ := exists_of_forall₂ written mem
    exact F.unwritten spoiled x wrote

theorem ends_of_elements {turns : Nat} {x : α} {acc : List α} {s : List Char}
    {result : List α × List Char} (h : r.elements turns (x :: acc) s = .ok result) : Ends s := by
  cases turns with
  | zero => cases h
  | succ turns =>
    rw [Reader.elements] at h
    obtain ⟨next, found, -⟩ := bind_eq_ok_iff.mp h
    exact ends_of_nextElement found

/-- What is read of the rest of a list, behind elements read already. -/
theorem elements_iff (h : F.ReadBy r) {items : List (Item Tree)} {turns : Nat}
    (enough : items.length < turns) (acc : List α) (gap : Blanks) (rest : List Char)
    (xs : List α) (s : List Char) :
    r.elements turns acc (gap.val ++ (Tree.row acc.isEmpty items ++ (']' :: rest))) = .ok (xs, s) ↔
      ∃ ys, xs = acc.reverse ++ ys ∧
        List.Forall₂ (fun y (i : Item Tree) => F.writes y i.value) ys items ∧ s = rest := by
  induction items generalizing turns acc gap with
  | nil =>
    obtain ⟨turns, rfl⟩ := Nat.exists_eq_succ_of_ne_zero (Nat.ne_of_gt enough)
    rw [Reader.elements, Tree.row, List.nil_append, nextElement_close]
    simp [bind, Except.bind, pure, Except.pure, eq_comm]
  | cons i items ih =>
    obtain ⟨turns, rfl⟩ := Nat.exists_eq_succ_of_ne_zero (Nat.ne_zero_of_lt enough)
    have fewer : items.length < turns := Nat.lt_of_succ_lt_succ enough
    have ends := Tree.ends_append i.after (Tree.ends_row items rest)
    rw [Reader.elements, Tree.row_cons]
    simp only [List.append_assoc, nextElement_item]
    show (r _ >>= fun p => r.elements turns (p.1 :: acc) p.2) = _ ↔ _
    rw [bind_eq_ok_iff]
    constructor
    · rintro ⟨⟨x, s'⟩, parsed, more⟩
      -- a reader may stop inside an item, but then the list does not go on
      obtain ⟨written, rfl⟩ := (h.read_iff i.value ends x s').mp ⟨parsed, ends_of_elements more⟩
      obtain ⟨ys, rfl, all, rfl⟩ := (ih fewer (x :: acc) i.after).mp more
      exact ⟨x :: ys, by simp, .cons written all, rfl⟩
    · rintro ⟨_, rfl, all, rfl⟩
      obtain ⟨y, ys, written, more, rfl⟩ := List.forall₂_cons_right_iff.mp all
      exact ⟨(y, _), h.reads written .none ends,
        (ih fewer (y :: acc) i.after).mpr ⟨ys, by simp, more, rfl⟩⟩

theorem readBy_list (h : F.ReadBy r) : F.list.ReadBy (.list r) := by
  intro t b rest ends xs s
  -- on a list, the reader goes through the items
  have core (gap : Blanks) (items : List (Item Tree)) :
      Reader.list r (b.val ++ ((Tree.list gap items).text ++ rest)) = .ok (xs, s) ↔
        List.Forall₂ (fun x (i : Item Tree) => F.writes x i.value) xs items ∧ s = rest := by
    have enough : items.length <
        (gap.val ++ (Tree.row true items ++ (']' :: rest))).length + 1 := by
      have short := Tree.length_le_row true items
      simp only [List.length_append]
      omega
    rw [Reader.list, Tree.skipBlank_text, Tree.list_append]
    refine (elements_iff h enough [] gap rest xs s).trans ?_
    simp
  constructor
  · rintro ⟨read, -⟩
    -- nothing else is read as a list
    have start := read
    rw [Reader.list, Tree.skipBlank_text] at start
    split at start
    · rename_i eq
      obtain ⟨gap, items, rfl⟩ := Tree.eq_list_of_append eq
      obtain ⟨all, rfl⟩ := (core gap items).mp read
      exact ⟨⟨gap, items, rfl, all⟩, rfl⟩
    · cases start
  · rintro ⟨⟨gap, items, rfl, all⟩, rfl⟩
    exact ⟨(core gap items).mpr ⟨all, rfl⟩, ends⟩

/-! ### Pairs -/

/-- A pair is written as a list of two. -/
def pair (F : Format α) (G : Format β) : Format (α × β) where
  writes x t := ∃ gap i j, t = .list gap [i, j] ∧ F.writes x.1 i.value ∧ G.writes x.2 j.value
  spoils fault t := ∃ gap i j, t = .list gap [i, j] ∧
    (F.spoils fault i.value ∨ G.spoils fault j.value)
  unwritten := by
    rintro fault _ ⟨gap, i, j, rfl, spoiled⟩ x ⟨_, _, _, ⟨⟩, first, second⟩
    rcases spoiled with spoiled | spoiled
    · exact F.unwritten spoiled _ first
    · exact G.unwritten spoiled _ second

theorem component_iff (h : F.ReadBy r) (before : Nat) (gap : Blanks) (items : List (Item Tree))
    (rest : List Char) (x : α) (s : List Char) :
    Reader.component before r (gap.val ++ (Tree.row (before == 0) items ++ (']' :: rest))) =
        .ok (x, s) ∧ Ends s ↔
      ∃ i more, items = i :: more ∧ F.writes x i.value ∧
        s = i.after.val ++ (Tree.row false more ++ (']' :: rest)) := by
  rw [Reader.component]
  cases items with
  | nil =>
    rw [Tree.row, List.nil_append, nextElement_close]
    refine iff_of_false (fun h => by cases h.1) ?_
    rintro ⟨_, _, ⟨⟩, _⟩
  | cons i items =>
    have ends := Tree.ends_append i.after (Tree.ends_row items rest)
    rw [Tree.row_cons]
    simp only [List.append_assoc, nextElement_item]
    refine (h.read_iff i.value ends x s).trans ?_
    simp

theorem ends_of_component {s : List Char} {result : α × List Char}
    (h : Reader.component 1 r s = .ok result) : Ends s := by
  rw [Reader.component] at h
  obtain ⟨next, found, -⟩ := bind_eq_ok_iff.mp h
  exact ends_of_nextElement found

theorem readBy_pair {G : Format β} {q : Reader β} (h : F.ReadBy r) (h' : G.ReadBy q) :
    (F.pair G).ReadBy (.pair r q) := by
  intro t b rest ends x s
  -- on a list, the reader takes two items and the end
  have core (gap : Blanks) (items : List (Item Tree)) :
      Reader.pair r q (b.val ++ ((Tree.list gap items).text ++ rest)) = .ok (x, s) ↔
        ∃ i j, items = [i, j] ∧ F.writes x.1 i.value ∧ G.writes x.2 j.value ∧ s = rest := by
    rw [Reader.pair, Tree.skipBlank_text, Tree.list_append]
    show (Reader.component 0 r _ >>= fun p => Reader.component 1 q p.2 >>= fun p' =>
      closeList p'.2 >>= fun s' => .ok ((p.1, p'.1), s')) = _ ↔ _
    simp only [bind_eq_ok_iff]
    constructor
    · rintro ⟨⟨y, s₁⟩, first, ⟨z, s₂⟩, second, s₃, closed, eq⟩
      obtain ⟨rfl, rfl⟩ := Prod.mk.inj (Except.ok.inj eq)
      obtain ⟨i, more, rfl, wrote, rfl⟩ :=
        (component_iff h 0 gap items rest y s₁).mp ⟨first, ends_of_component second⟩
      obtain ⟨j, more, rfl, wrote', rfl⟩ :=
        (component_iff h' 1 i.after more rest z s₂).mp ⟨second, ends_of_closeList closed⟩
      obtain ⟨rfl, rfl⟩ := (closeList_row_iff false j.after more rest s₃).mp closed
      exact ⟨i, j, rfl, wrote, wrote', rfl⟩
    · rintro ⟨i, j, rfl, wrote, wrote', rfl⟩
      obtain ⟨first, -⟩ := (component_iff h 0 gap [i, j] s x.1 _).mpr ⟨i, [j], rfl, wrote, rfl⟩
      obtain ⟨second, -⟩ := (component_iff h' 1 i.after [j] s x.2 _).mpr ⟨j, [], rfl, wrote', rfl⟩
      exact ⟨_, first, _, second, _, (closeList_row_iff false j.after [] s s).mpr ⟨rfl, rfl⟩, rfl⟩
  constructor
  · rintro ⟨read, -⟩
    -- nothing else is read as a pair
    have start := read
    rw [Reader.pair, Tree.skipBlank_text] at start
    split at start
    · rename_i eq
      obtain ⟨gap, items, rfl⟩ := Tree.eq_list_of_append eq
      obtain ⟨i, j, rfl, wrote, wrote', rfl⟩ := (core gap items).mp read
      exact ⟨⟨gap, i, j, rfl, wrote, wrote'⟩, rfl⟩
    · cases start
  · rintro ⟨⟨gap, i, j, rfl, wrote, wrote'⟩, rfl⟩
    exact ⟨(core gap [i, j]).mpr ⟨i, j, rfl, wrote, wrote', rfl⟩, ends⟩

/-! ### Choices -/

end Format

/-- Whether the key of a member spells a name. -/
def Member.IsNamed (m : Member Tree) (name : String) : Prop :=
  Spells m.key name.toList

theorem Member.IsNamed.unique {m : Member Tree} {name name' : String} (h : m.IsNamed name)
    (h' : m.IsNamed name') : name = name' :=
  String.toList_inj.mp (Spells.unique h h')

theorem readColon_text (behind : Blanks) (rest : List Char) :
    readColon (behind.val ++ (':' :: rest)) = .ok rest := by
  rw [readColon, skipBlank_append, skipBlank_of_not_blank rfl]
  rfl

theorem lookup_iff {α : Type} {choices : List (String × α)} (distinct : (choices.map (·.1)).Nodup)
    (name : String) (x : α) : Reader.lookup choices name = .ok x ↔ (name, x) ∈ choices := by
  rw [Reader.lookup]
  cases found : choices.find? fun c => c.1 == name with
  | none =>
    refine iff_of_false (fun h => by cases h) fun mem => ?_
    exact List.find?_eq_none.mp found _ mem (beq_self_eq_true name)
  | some c =>
    obtain ⟨name', y⟩ := c
    have mem := List.mem_of_find?_eq_some found
    have same := List.find?_some found
    obtain rfl : name' = name := eq_of_beq same
    constructor
    · intro h
      exact Except.ok.inj h ▸ mem
    · intro mem'
      have eq := List.inj_on_of_nodup_map distinct mem mem' rfl
      exact congrArg Except.ok (congrArg Prod.snd eq)

namespace Format

/-- A value of several is written by its name, be it as a string or as the only key of an object
with `null` under it. -/
def choice (choices : List (String × α)) : Format α where
  writes x t := ∃ name, (name, x) ∈ choices ∧
    (t.IsText name ∨ ∃ gap m, t = .object gap [m] ∧ m.IsNamed name ∧ m.value = .null)
  spoils _ _ := False
  unwritten h := h.elim

section

variable {choices : List (String × α)} {b : Blanks} {rest : List Char} {x : α} {s : List Char}

theorem choice_string_iff (distinct : (choices.map (·.1)).Nodup) (pieces : List Piece) :
    Reader.choice choices (b.val ++ ((Tree.string pieces).text ++ rest)) = .ok (x, s) ↔
      ∃ name, (name, x) ∈ choices ∧ Spells pieces name.toList ∧ s = rest := by
  rw [Reader.choice, Tree.skipBlank_text]
  show (readString [] (stringText pieces ++ rest) >>= fun p =>
    Reader.lookup choices p.1 >>= fun y => .ok (y, p.2)) = _ ↔ _
  simp only [bind_eq_ok_iff]
  constructor
  · rintro ⟨⟨name, s'⟩, parsed, y, known, eq⟩
    obtain ⟨rfl, rfl⟩ := Prod.mk.inj (Except.ok.inj eq)
    obtain ⟨spells, rfl⟩ := (readString_text_iff pieces rest name s').mp parsed
    exact ⟨name, (lookup_iff distinct name y).mp known, spells, rfl⟩
  · rintro ⟨name, known, spells, rfl⟩
    exact ⟨(name, s), (readString_text_iff pieces s name s).mpr ⟨spells, rfl⟩, x,
      (lookup_iff distinct name x).mpr known, rfl⟩

theorem choice_object_iff (distinct : (choices.map (·.1)).Nodup) (gap : Blanks)
    (members : List (Member Tree)) :
    Reader.choice choices (b.val ++ ((Tree.object gap members).text ++ rest)) = .ok (x, s) ↔
      ∃ name m, members = [m] ∧ (name, x) ∈ choices ∧ m.IsNamed name ∧ m.value = .null ∧
        s = rest := by
  rw [Reader.choice, Tree.skipBlank_text, Tree.object_append]
  show (_ >>= _) = _ ↔ _
  simp only [bind_eq_ok_iff]
  cases members with
  | nil =>
    -- an object without a member has no name
    refine iff_of_false ?_ ?_
    · rintro ⟨p, parsed, -⟩
      rw [Reader.named, Tree.memberRow, List.nil_append, skipBlank_append,
        skipBlank_of_not_blank rfl] at parsed
      cases parsed
    · rintro ⟨_, _, ⟨⟩, _⟩
  | cons m members =>
    have ends := Tree.ends_append m.after (Tree.ends_memberRow members rest)
    simp only [Tree.memberRow_cons, comma_true, List.nil_append, List.append_assoc,
      List.cons_append, named_append]
    constructor
    · rintro ⟨⟨name, s₁⟩, parsed, y, known, s₂, colon, ⟨⟨⟩, s₃⟩, null, closed⟩
      obtain ⟨named, rfl⟩ := (named_iff _ m.key _ name s₁).mp parsed
      rw [readColon_text] at colon
      obtain rfl := Except.ok.inj colon
      split at closed
      · cases closed
      · rename_i after eq
        obtain ⟨rfl, rfl⟩ := Prod.mk.inj (Except.ok.inj closed)
        -- the value is `null`, and as a bracket follows it, there is no second member
        have behind : Ends s₃ := Tree.ends_of_skipBlank (eq ▸ Or.inr (Or.inr (Or.inr rfl)))
        obtain ⟨absent, rfl⟩ := (readBy_nothing m.value m.before _ ends () s₃).mp ⟨null, behind⟩
        rw [skipBlank_append] at eq
        cases members with
        | nil =>
          rw [Tree.memberRow, List.nil_append, skipBlank_of_not_blank rfl] at eq
          exact ⟨name, m, rfl, (lookup_iff distinct name y).mp known, named, absent,
            (List.cons.inj eq).2.symm⟩
        | cons m' members =>
          rw [Tree.memberRow_cons, comma_false, List.singleton_append, List.cons_append,
            skipBlank_of_not_blank rfl] at eq
          exact absurd (List.cons.inj eq).1 (by decide)
      · cases closed
    · rintro ⟨name, m', single, known, named, null, rfl⟩
      obtain ⟨rfl, rfl⟩ := List.cons.inj single
      refine ⟨(name, _), (named_iff _ m.key _ name _).mpr ⟨named, rfl⟩, x,
        (lookup_iff distinct name x).mpr known, _, readColon_text m.behind _, ((), _),
        readBy_nothing.reads null m.before ends, ?_⟩
      simp only [Tree.memberRow, List.nil_append, skipBlank_append]
      rw [skipBlank_of_not_blank rfl]
      rfl

end

theorem readBy_choice {choices : List (String × α)} (distinct : (choices.map (·.1)).Nodup) :
    (choice choices).ReadBy (.choice choices) := by
  intro t b rest ends x s
  constructor
  · rintro ⟨read, -⟩
    have start := read
    rw [Reader.choice, Tree.skipBlank_text] at start
    split at start
    · cases start
    · rename_i eq
      obtain ⟨pieces, rfl⟩ := Tree.eq_string_of_append eq
      obtain ⟨name, known, spells, rfl⟩ := (choice_string_iff distinct pieces).mp read
      exact ⟨⟨name, known, Or.inl ⟨pieces, rfl, spells⟩⟩, rfl⟩
    · rename_i eq
      obtain ⟨gap, members, rfl⟩ := Tree.eq_object_of_append eq
      obtain ⟨name, m, rfl, known, named, null, rfl⟩ :=
        (choice_object_iff distinct gap members).mp read
      exact ⟨⟨name, known, Or.inr ⟨gap, m, rfl, named, null⟩⟩, rfl⟩
    · cases start
  · rintro ⟨⟨name, known, ⟨pieces, rfl, spells⟩ | ⟨gap, m, rfl, named, null⟩⟩, rfl⟩
    · exact ⟨(choice_string_iff distinct pieces).mpr ⟨name, known, spells, rfl⟩, ends⟩
    · exact ⟨(choice_object_iff distinct gap [m]).mpr ⟨name, m, rfl, known, named, null, rfl⟩, ends⟩

end Format

/-! ### Texts -/

/-- A text that is one value between blanks. -/
def Tree.document (before : Blanks) (t : Tree) (after : Blanks) : String :=
  String.ofList (before.val ++ (t.text ++ after.val))

/-- **Reading a text** that is one value between blanks gives what the value writes. -/
theorem readText_iff {α : Type} {F : Format α} {r : Reader α} (h : F.ReadBy r) (before : Blanks)
    (t : Tree) (after : Blanks) (x : α) :
    readText r (t.document before after) = .ok x ↔ F.writes x t := by
  have ends : Ends after.val := by
    have nothing := Tree.ends_append after (s := []) trivial
    rwa [List.append_nil] at nothing
  have blank (b : Blanks) : skipBlank b.val = [] := by
    have nothing := skipBlank_append b []
    rwa [List.append_nil] at nothing
  rw [readText, Tree.document, String.toList_ofList]
  show (r _ >>= fun p => _) = _ ↔ _
  rw [bind_eq_ok_iff]
  constructor
  · rintro ⟨⟨y, s⟩, parsed, closed⟩
    simp only at closed
    split at closed
    · rename_i nothing
      obtain rfl := Except.ok.inj closed
      have behind : Ends s := Tree.ends_of_skipBlank (nothing ▸ trivial)
      exact ((h t before after.val ends y s).mp ⟨parsed, behind⟩).1
    · cases closed
  · intro written
    refine ⟨(x, after.val), h.reads written before ends, ?_⟩
    simp only [blank]
    rfl

end ShellSale.Json
