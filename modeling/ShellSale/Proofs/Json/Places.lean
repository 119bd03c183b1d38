import Mathlib.Data.List.Pairwise
import ShellSale.Proofs.Json.Schemas

/-!
## Places in values

A format looks for values of other formats inside the values that it is written by: in the items of
lists and pairs, under the known keys of objects, and in the items of lists that stand for records.
What is written by a value stays the same if what stands in such a place is exchanged for another
way to write the same. Objects and lists are two ways to write a record.

* `Place`: the places where a format looks for values of another one.
* `Place.exists_writes`: what stands in a place is written, and may be exchanged.
* `Schema.Lists`: that a list has the values of an object in the order of the fields.
* `Schema.Lists.fills_iff`: an object and a list of its values make the same of a record.
* `Schema.not_lines_of_length`: which lists are too long or too short.
-/

namespace ShellSale.Json

/-! ### What an item does -/

/-- An item of a list that is related to another list has a partner, for which another one may stand
in its place. -/
theorem exists_of_forall₂_append {α β : Type} {R : α → β → Prop} {xs : List α}
    {front back : List β} {i : β} (h : List.Forall₂ R xs (front ++ i :: back)) :
    ∃ x, R x i ∧ ∀ j, R x j → List.Forall₂ R xs (front ++ j :: back) := by
  induction front generalizing xs with
  | nil =>
    obtain ⟨x, xs, here, later, rfl⟩ := List.forall₂_cons_right_iff.mp h
    exact ⟨x, here, fun j other => .cons other later⟩
  | cons i' front ih =>
    obtain ⟨x', xs, here, later, rfl⟩ := List.forall₂_cons_right_iff.mp h
    obtain ⟨x, related, change⟩ := ih later
    exact ⟨x, related, fun j other => .cons here (change j other)⟩

/-- A member with another value. -/
def Member.put (m : Member Tree) (t : Tree) : Member Tree :=
  { m with value := t }

@[simp] theorem Member.isNamed_put_iff (m : Member Tree) (t : Tree) (name : String) :
    (m.put t).IsNamed name ↔ m.IsNamed name :=
  Iff.rfl

namespace Schema

variable {α : Type} {d : Schema α} {x y : α}

section

variable {given : List String} {front back : List (Member Tree)} {m : Member Tree} {t : Tree}
  {s : Slot α}

theorem Distinct.put (h : d.Distinct given (front ++ m.put t :: back)) (t' : Tree) :
    d.Distinct given (front ++ m.put t' :: back) where
  keyed := by
    simpa only [List.forall_mem_append, List.forall_mem_cons, Member.isNamed_put_iff] using h.keyed
  once := by
    simpa only [List.pairwise_append, List.pairwise_cons, List.forall_mem_cons,
      Member.isNamed_put_iff] using h.once
  fresh := by
    simpa only [List.forall_mem_append, List.forall_mem_cons, Member.isNamed_put_iff] using h.fresh

/-- The value of a member may be exchanged for another that writes the same. -/
theorem Fills.put (names : (d.slots.map (·.name)).Nodup) (known : s ∈ d.slots)
    (named : m.IsNamed s.name) (h : d.Fills given x y (front ++ m.put t :: back)) {t' : Tree}
    (written : s.format.writes (s.get y) t') : d.Fills given x y (front ++ m.put t' :: back) where
  toDistinct := h.toDistinct.put t'
  takes s' known' := by
    have taken := h.takes s' known'
    simp only [List.forall_mem_append, List.forall_mem_cons] at taken ⊢
    refine ⟨taken.1, fun named' => ?_, taken.2.2⟩
    obtain rfl := List.inj_on_of_nodup_map names known known' (named.unique named')
    exact written
  keeps s' known' absent := h.keeps s' known' <| by
    simpa only [List.forall_mem_append, List.forall_mem_cons, Member.isNamed_put_iff] using absent

end

theorem writes_list_iff (gap : Blanks) {items : List (Item Tree)} :
    d.format.writes y (.list gap items) ↔ d.Lines d.start y d.slots items := by
  constructor
  · rintro (⟨_, _, ⟨⟩, _⟩ | ⟨_, _, ⟨⟩, lines⟩)
    exact lines
  · exact fun lines => Or.inr ⟨gap, items, rfl, lines⟩

/-- The item of a field may be exchanged for another that writes the same. -/
theorem Lines.put {slots : List (Slot α)} {front back : List (Item Tree)} {i : Item Tree}
    {s : Slot α} (place : slots[front.length]? = some s)
    (h : d.Lines x y slots (front ++ i :: back)) :
    s.format.writes (s.get y) i.value ∧ ∀ j : Item Tree, s.format.writes (s.get y) j.value →
      d.Lines x y slots (front ++ j :: back) := by
  induction front generalizing slots with
  | nil =>
    obtain ⟨slots, rfl⟩ : ∃ later, slots = s :: later := by
      cases slots with
      | nil => cases place
      | cons s' slots => exact ⟨slots, congrArg (· :: slots) (Option.some.inj place)⟩
    exact ⟨h.1, fun j other => ⟨other, h.2⟩⟩
  | cons i' front ih =>
    cases slots with
    | nil => cases place
    | cons s' slots =>
      obtain ⟨written, change⟩ := ih place h.2
      exact ⟨written, fun j other => ⟨h.1, change j other⟩⟩

end Schema

/-! ### Places -/

/-- Where a format looks for values of the format `G`. A place is given by what stands around it, as
what the whole value is for each value in the place. -/
inductive Place {β : Type} (G : Format β) : {α : Type} → Format α → (Tree → Tree) → Prop
  | here : Place G G id
  | optional {α : Type} {F : Format α} {c : Tree → Tree} : Place G F c → Place G F.optional c
  | item {α : Type} {F : Format α} {c : Tree → Tree} (gap before after : Blanks)
      (front back : List (Item Tree)) : Place G F c →
      Place G F.list fun t => .list gap (front ++ ⟨before, c t, after⟩ :: back)
  | first {α γ : Type} {F : Format α} {H : Format γ} {c : Tree → Tree} (gap before after : Blanks)
      (j : Item Tree) : Place G F c →
      Place G (F.pair H) fun t => .list gap [⟨before, c t, after⟩, j]
  | second {α γ : Type} {F : Format α} {H : Format γ} {c : Tree → Tree} (gap before after : Blanks)
      (i : Item Tree) : Place G H c →
      Place G (F.pair H) fun t => .list gap [i, ⟨before, c t, after⟩]
  /-- The value of a known key. -/
  | member {α : Type} {d : Schema α} {s : Slot α} {c : Tree → Tree} {m : Member Tree} (gap : Blanks)
      (front back : List (Member Tree)) : (d.slots.map (·.name)).Nodup → s ∈ d.slots →
      m.IsNamed s.name → Place G s.format c →
      Place G d.format fun t => .object gap (front ++ m.put (c t) :: back)
  /-- The value of a field in a list that stands for a record. -/
  | line {α : Type} {d : Schema α} {s : Slot α} {c : Tree → Tree} (gap before after : Blanks)
      (front back : List (Item Tree)) : d.slots[front.length]? = some s → Place G s.format c →
      Place G d.format fun t => .list gap (front ++ ⟨before, c t, after⟩ :: back)

namespace Place

variable {α β : Type} {F : Format α} {G : Format β} {c : Tree → Tree} {t : Tree}

theorem ne_null (place : Place G F c) (h : t ≠ .null) : c t ≠ .null := by
  induction place with
  | here => exact h
  | optional _ ih => exact ih
  | item | first | second | member | line => exact Tree.noConfusion

/-- **What stands in a place** writes a value, and another way to write the same value may stand
there. -/
theorem exists_writes (place : Place G F c) (some : t ≠ .null) {x : α} (h : F.writes x (c t)) :
    ∃ y, G.writes y t ∧ ∀ t', t' ≠ .null → G.writes y t' → F.writes x (c t') := by
  -- by induction on what stands around the place, from the inside out: the value that a part writes
  -- stays the same, so the part may be exchanged in the whole
  induction place with
  | here => exact ⟨x, h, fun _ _ other => other⟩
  | optional place ih =>
    cases x with
    | none => exact absurd h (place.ne_null some)
    | some x =>
      obtain ⟨y, written, change⟩ := ih h.2
      exact ⟨y, written, fun t' some' other => ⟨place.ne_null some', change t' some' other⟩⟩
  | item gap before after front back _ ih =>
    obtain ⟨_, _, ⟨⟩, items⟩ := h
    obtain ⟨x', wrote, exchange⟩ := exists_of_forall₂_append items
    obtain ⟨y, written, change⟩ := ih wrote
    refine ⟨y, written, fun t' some' other => ⟨gap, _, rfl, exchange _ ?_⟩⟩
    exact change t' some' other
  | first gap before after j _ ih =>
    obtain ⟨_, _, _, ⟨⟩, wrote, later⟩ := h
    obtain ⟨y, written, change⟩ := ih wrote
    exact ⟨y, written, fun t' some' other =>
      ⟨gap, _, _, rfl, change t' some' other, later⟩⟩
  | second gap before after i _ ih =>
    obtain ⟨_, _, _, ⟨⟩, earlier, wrote⟩ := h
    obtain ⟨y, written, change⟩ := ih wrote
    exact ⟨y, written, fun t' some' other =>
      ⟨gap, _, _, rfl, earlier, change t' some' other⟩⟩
  | @member _ d s _ m gap front back names known named _ ih =>
    have fills := (Schema.writes_object_iff gap).mp h
    have wrote := fills.takes s known _ (List.mem_append_right front List.mem_cons_self) named
    obtain ⟨y, written, change⟩ := ih wrote
    refine ⟨y, written, fun t' some' other => (Schema.writes_object_iff gap).mpr ?_⟩
    exact fills.put names known named (change t' some' other)
  | line gap before after front back field _ ih =>
    -- the items in front of the place tell which field it is for
    have lines := (Schema.writes_list_iff gap).mp h
    obtain ⟨wrote, exchange⟩ := lines.put field
    obtain ⟨y, written, change⟩ := ih wrote
    refine ⟨y, written, fun t' some' other => (Schema.writes_list_iff gap).mpr (exchange _ ?_)⟩
    exact change t' some' other

end Place

/-! ### Records as lists -/

namespace Schema

variable {α : Type} {d : Schema α} {x y : α}

/-- What a list makes of a record: its items give the first fields, and the others stay. -/
theorem lines_iff {slots : List (Slot α)} {items : List (Item Tree)} :
    d.Lines x y slots items ↔
      List.Forall₂ (fun s i => s.format.writes (s.get y) i.value) (slots.take items.length) items ∧
        ∀ s ∈ slots.drop items.length, d.complete = false ∧ s.get y = s.get x := by
  induction slots generalizing items with
  | nil => cases items <;> simp [Lines]
  | cons s slots ih =>
    cases items with
    | nil =>
      have rest := @ih []
      simp only [List.length_nil, List.take_zero, List.drop_zero, List.Forall₂.nil,
        true_and] at rest
      simp [Lines, rest, and_assoc]
    | cons i items => simp [Lines, ih, and_assoc]

/-- Whether the items of a list are the values that the members of an object give to the first
fields, in the order of the fields, and the object gives no other field. -/
structure Lists (d : Schema α) (members : List (Member Tree)) (items : List (Item Tree)) : Prop
    extends d.Distinct [] members where
  values : List.Forall₂ (fun s i => ∃ m ∈ members, m.IsNamed s.name ∧ m.value = i.value)
    (d.slots.take items.length) items
  others : ∀ s ∈ d.slots.drop items.length, ∀ m ∈ members, ¬m.IsNamed s.name

section

variable {members : List (Member Tree)} {items : List (Item Tree)}

/-- An object that gives the first fields has a list of their values. -/
theorem exists_lists (distinct : d.Distinct [] members) {k : Nat} (few : k ≤ d.slots.length)
    (given : ∀ s ∈ d.slots.take k, ∃ m ∈ members, m.IsNamed s.name)
    (others : ∀ s ∈ d.slots.drop k, ∀ m ∈ members, ¬m.IsNamed s.name) :
    ∃ items, items.length = k ∧ d.Lists members items := by
  obtain ⟨items, values⟩ : ∃ items : List (Item Tree),
      List.Forall₂ (fun s i => ∃ m ∈ members, m.IsNamed s.name ∧ m.value = i.value)
        (d.slots.take k) items := by
    generalize d.slots.take k = slots at given
    induction slots with
    | nil => exact ⟨[], .nil⟩
    | cons s slots ih =>
      obtain ⟨⟨m, mem, named⟩, later⟩ := List.forall_mem_cons.mp given
      obtain ⟨items, values⟩ := ih later
      exact ⟨m.toItem :: items, .cons ⟨m, mem, named, rfl⟩ values⟩
  have length : items.length = k := by
    rw [← values.length_eq, List.length_take_of_le few]
  exact ⟨items, length, ⟨distinct, length ▸ values, length ▸ others⟩⟩

/-- Two members that give one field are one. -/
theorem Distinct.eq {given : List String} (h : d.Distinct given members) {s : Slot α}
    (known : s ∈ d.slots) {m m' : Member Tree} (mem : m ∈ members) (mem' : m' ∈ members)
    (named : m.IsNamed s.name) (named' : m'.IsNamed s.name) : m = m' := by
  have : Std.Symm fun m m' : Member Tree => ¬(m.IsNamed s.name ∧ m'.IsNamed s.name) :=
    ⟨fun _ _ apart both => apart both.symm⟩
  by_contra ne
  exact (h.once s known).forall mem mem' ne ⟨named, named'⟩

theorem mem_take_or_mem_drop {s : Slot α} (known : s ∈ d.slots) (k : Nat) :
    s ∈ d.slots.take k ∨ s ∈ d.slots.drop k :=
  List.mem_append.mp ((List.take_append_drop k d.slots).symm ▸ known)

/-- **An object and a list of its values** make the same of a record. -/
theorem Lists.fills_iff (h : d.Lists members items) :
    d.Fills [] x y members ↔ d.Lines x y d.slots items := by
  rw [lines_iff]
  constructor
  · intro fills
    constructor
    -- the first fields stand in the list as they do among the members, and those behind stay as
    -- they are
    · have known := (List.forall₂_and_left _ _).mpr ⟨fun s => List.mem_of_mem_take, h.values⟩
      refine known.imp fun s i ⟨known, m, mem, named, eq⟩ => ?_
      exact eq ▸ fills.takes s known m mem named
    · intro s mem
      obtain ⟨needed, kept⟩ := fills.keeps s (List.mem_of_mem_drop mem) (h.others s mem)
      exact ⟨Bool.eq_false_iff.mpr fun complete => List.not_mem_nil (needed complete), kept⟩
  · rintro ⟨written, left⟩
    -- each item of the list is the value of a member
    have given : ∀ s ∈ d.slots.take items.length,
        ∃ m ∈ members, m.IsNamed s.name ∧ s.format.writes (s.get y) m.value := by
      have both := List.Forall₂.mp (fun _ _ => And.intro) h.values written
      refine ((List.forall₂_and_left (R := fun _ _ => True) _ items).mp (both.imp ?_)).1
      rintro s i ⟨⟨m, mem, named, eq⟩, wrote⟩
      exact ⟨⟨m, mem, named, eq ▸ wrote⟩, trivial⟩
    -- a field is among the first, which the list gives, or among the last, which stay
    refine ⟨h.toDistinct, fun s known m mem named => ?_, fun s known absent => ?_⟩
    · rcases mem_take_or_mem_drop known items.length with first | last
      · obtain ⟨m', mem', named', wrote⟩ := given s first
        exact h.toDistinct.eq known mem' mem named' named ▸ wrote
      · exact absurd named (h.others s last m mem)
    · rcases mem_take_or_mem_drop known items.length with first | last
      · obtain ⟨m, mem, named, -⟩ := given s first
        exact absurd named (absent m mem)
      · obtain ⟨open_, kept⟩ := left s last
        exact ⟨fun complete => Bool.noConfusion (open_.symm.trans complete), kept⟩

/-- A list of too many values, or of too few of a record that has to be complete, makes nothing. -/
theorem not_lines_of_length (h : d.slots.length < items.length ∨
    d.complete = true ∧ items.length < d.slots.length) : ¬d.Lines x y d.slots items := by
  rw [lines_iff]
  rintro ⟨written, left⟩
  rcases h with many | ⟨complete, few⟩
  · have length := written.length_eq
    rw [List.length_take] at length
    omega
  · have some : d.slots.drop items.length ≠ [] := by simpa using few
    obtain ⟨open_, -⟩ := left _ (List.head_mem some)
    exact Bool.noConfusion (open_.symm.trans complete)

end

end Schema

end ShellSale.Json
