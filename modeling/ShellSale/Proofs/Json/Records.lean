import ShellSale.Json.Record
import ShellSale.Proofs.Json.Schemas

/-!
## Reading records

The reader of a layout reads what its schema says: an object member by member, a list item by item.

* `Schema.Does`: what one member of an object does; `Schema.of_member` and `Schema.exists_member`:
  that it is read so.
* `Schema.members_iff`: what is read of the members of an object.
* `Schema.values_iff`: what is read of the items of a list.
* `Schema.ReadBy.format` is the main result.
-/

namespace ShellSale.Json

variable {α : Type}

/-- The text of a member from its key on, behind the quote. -/
def Member.body (m : Member Tree) (rest : List Char) : List Char :=
  stringText m.key ++ (m.behind.val ++ (':' :: (m.before.val ++ (m.value.text ++ rest))))

namespace Schema

/-! ### Layouts -/

/-- Whether a field of a layout is read and set as a schema has it. -/
structure Reads (d : Schema α) (s : Slot α) (f : Field α) : Prop where
  name : f.name = s.name
  reads : ∃ (r : Reader s.β) (set : s.β → α → α), f.read = r.map set ∧ s.format.ReadBy r ∧
    ∀ v, d.Sets s v (set v)

/-- Whether a layout reads what a schema says. -/
structure ReadBy (d : Schema α) (l : Layout α) : Prop where
  start : l.start = d.start
  complete : l.complete = d.complete
  fields : List.Forall₂ d.Reads d.slots l.fields
  names : (d.slots.map (·.name)).Nodup
  ext : ∀ x y, (∀ s ∈ d.slots, s.get x = s.get y) → x = y

variable {d : Schema α} {l : Layout α}

theorem Reads.of {s : Slot α} {r : Reader s.β} {set : s.β → α → α} (readBy : s.format.ReadBy r)
    (sets : ∀ v, d.Sets s v (set v)) : d.Reads s (.of s.name r set) :=
  ⟨rfl, r, set, rfl, readBy, sets⟩

theorem exists_reads {slots : List (Slot α)} {fields : List (Field α)}
    (h : List.Forall₂ d.Reads slots fields) {s : Slot α} (known : s ∈ slots) :
    ∃ f, d.Reads s f := by
  induction h with
  | nil => exact absurd known List.not_mem_nil
  | cons reads _ ih =>
    rcases List.mem_cons.mp known with rfl | known
    · exact ⟨_, reads⟩
    · exact ih known

theorem ReadBy.lawful (h : d.ReadBy l) : d.Lawful where
  names := h.names
  ext := h.ext
  settable s known v := by
    obtain ⟨f, reads⟩ := exists_reads h.fields known
    obtain ⟨r, set, -, -, sets⟩ := reads.reads
    exact ⟨set v, sets v⟩
  unique s known t v v' := by
    obtain ⟨f, reads⟩ := exists_reads h.fields known
    obtain ⟨r, set, -, readBy, -⟩ := reads.reads
    exact fun written written' => readBy.unique written written'

/-! ### Reading objects -/

theorem nextKey_close (first : Bool) (gap : Blanks) (rest : List Char) :
    nextKey first (gap.val ++ ('\x7d' :: rest)) = .ok (.closed rest) := by
  rw [nextKey, skipBlank_append, skipBlank_of_not_blank rfl]
  rfl

theorem nextKey_item (first : Bool) (gap before : Blanks) (rest : List Char) :
    nextKey first (gap.val ++ (comma first ++ (before.val ++ ('"' :: rest)))) =
      .ok (.item rest) := by
  rw [nextKey, skipBlank_append]
  cases first with
  | true =>
    rw [comma_true, List.nil_append, skipBlank_append, skipBlank_of_not_blank rfl]
    rfl
  | false =>
    have key : skipBlank (before.val ++ ('"' :: rest)) = '"' :: rest := by
      rw [skipBlank_append, skipBlank_of_not_blank rfl]
    rw [comma_false, List.singleton_append, skipBlank_of_not_blank rfl]
    split
    · contradiction
    · rename_i h
      exact absurd (List.cons.inj h).1 (by decide)
    · rename_i h
      obtain ⟨rfl, rfl⟩ := List.cons.inj h
      simp only [Bool.false_eq_true, if_false, if_true, key]

/-- Behind the first member, an object goes on only as it may behind a value. -/
theorem ends_of_nextKey {s : List Char} {next : Next} (h : nextKey false s = .ok next) :
    Ends s := by
  refine Tree.ends_of_skipBlank ?_
  rw [nextKey] at h
  split at h
  · cases h
  · rename_i eq
    rw [eq]
    exact Or.inr (Or.inr (Or.inr rfl))
  · rename_i c rest _ eq
    rw [if_neg Bool.false_ne_true] at h
    split at h
    · rename_i comma
      rw [eq]
      exact Or.inr (Or.inl comma)
    · cases h

variable {slots : List (Slot α)} {fields : List (Field α)}

/-- A layout has a field of a name just where its schema has one. -/
theorem find_field (h : List.Forall₂ d.Reads slots fields) (key : String) :
    (∃ s ∈ slots, s.name = key ∧
      ∃ f, fields.find? (fun f => f.name == key) = some f ∧ d.Reads s f) ∨
    (∀ s ∈ slots, s.name ≠ key) ∧ fields.find? (fun f => f.name == key) = none := by
  induction h with
  | nil => exact Or.inr ⟨fun _ h => absurd h List.not_mem_nil, rfl⟩
  | @cons s f _ _ reads _ ih =>
    by_cases eq : f.name = key
    · refine Or.inl ⟨s, List.mem_cons_self, reads.name.symm.trans eq, f, ?_, reads⟩
      rw [List.find?_cons_of_pos (by simpa using eq)]
    · rw [List.find?_cons_of_neg (by simpa using eq)]
      rcases ih with ⟨s', known, named, found⟩ | ⟨unknown, none⟩
      · exact Or.inl ⟨s', List.mem_cons_of_mem s known, named, found⟩
      · exact Or.inr ⟨List.forall_mem_cons.mpr ⟨reads.name ▸ eq, unknown⟩, none⟩

theorem names_eq (h : List.Forall₂ d.Reads slots fields) :
    fields.map (·.name) = slots.map (·.name) := by
  induction h with
  | nil => rfl
  | cons reads _ ih => rw [List.map_cons, List.map_cons, reads.name, ih]

theorem missing?_eq_none_iff (h : d.ReadBy l) (given : List String) :
    l.missing? given = none ↔ (d.complete = true → ∀ s ∈ d.slots, s.name ∈ given) := by
  rw [Layout.missing?, names_eq h.fields, h.complete]
  cases d.complete <;> simp

section

variable {m : Member Tree} {given : List String} {rest s : List Char} {key : String}

/-- What one member of an object does to a record behind fields given before it: it sets a field to
what its value writes, or nothing if its name is unknown. -/
inductive Does (d : Schema α) (given : List String) (m : Member Tree) : String → (α → α) → Prop
  | sets {s₀ : Slot α} {v : s₀.β} {set : α → α} : s₀ ∈ d.slots → m.IsNamed s₀.name →
      s₀.name ∉ given → s₀.format.writes v m.value → d.Sets s₀ v set → d.Does given m s₀.name set
  | nothing {name : String} : m.IsNamed name → (∀ s ∈ d.slots, s.name ≠ name) →
      d.Does given m name id

theorem Does.fills_iff (lawful : d.Lawful) {set : α → α} {x y : α}
    {members : List (Member Tree)} (h : d.Does given m key set) :
    d.Fills given x y (m :: members) ↔ d.Fills (key :: given) (set x) y members := by
  cases h with
  | sets known named new written sets =>
    exact fills_cons_known lawful known named new written sets
  | nothing named unknown => exact fills_cons_unknown named unknown

/-- What is read as a member does what the member does. -/
theorem of_member (h : d.ReadBy l) (ends : Ends rest) {set : α → α}
    (read : l.member given (m.body rest) = .ok ((key, set), s)) (behind : Ends s) :
    d.Does given m key set ∧ s = rest := by
  rw [Layout.member, Member.body] at read
  obtain ⟨⟨key', s₁⟩, parsed, read⟩ := bind_eq_ok_iff.mp read
  obtain ⟨named, rfl⟩ := (readString_text_iff _ _ _ _).mp parsed
  rcases find_field h.fields key' with ⟨s₀, known, rfl, f, found, reads⟩ | ⟨unknown, none⟩
  -- a known field, which is not given yet, is set to what is read
  · simp only [found] at read
    split at read
    · cases read
    · rename_i new
      obtain ⟨_, colon, read⟩ := bind_eq_ok_iff.mp read
      rw [readColon_text] at colon
      obtain rfl := Except.ok.inj colon
      obtain ⟨⟨set', s₂⟩, parsed, read⟩ := bind_eq_ok_iff.mp read
      cases read
      obtain ⟨r, setter, eq, readBy, sets⟩ := reads.reads
      rw [eq] at parsed
      obtain ⟨v, taken, rfl⟩ := map_eq_ok_iff.mp parsed
      obtain ⟨written, rfl⟩ := (readBy m.value m.before rest ends v _).mp ⟨taken, behind⟩
      exact ⟨.sets known named (by simpa using new) written (sets v), rfl⟩
  -- the value under an unknown name is skipped
  · simp only [none] at read
    obtain ⟨_, colon, read⟩ := bind_eq_ok_iff.mp read
    rw [readColon_text] at colon
    obtain rfl := Except.ok.inj colon
    obtain ⟨s₂, skipped, read⟩ := bind_eq_ok_iff.mp read
    rw [skipValue_text m.before m.value ends] at skipped
    cases skipped
    cases read
    exact ⟨.nothing named unknown, rfl⟩

/-- A member of an object that writes a record is read. -/
theorem exists_member (h : d.ReadBy l) (ends : Ends rest) {x y : α} {members : List (Member Tree)}
    (fills : d.Fills given x y (m :: members)) :
    ∃ key set, l.member given (m.body rest) = .ok ((key, set), rest) ∧ d.Does given m key set := by
  obtain ⟨key, named⟩ := fills.keyed m List.mem_cons_self
  have spelled := (readString_text_iff m.key
    (m.behind.val ++ (':' :: (m.before.val ++ (m.value.text ++ rest)))) key _).mpr ⟨named, rfl⟩
  have colon := readColon_text m.behind (m.before.val ++ (m.value.text ++ rest))
  rcases find_field h.fields key with ⟨s₀, known, rfl, f, found, reads⟩ | ⟨unknown, none⟩
  -- a known field has not been given before, as the members have distinct names
  · have new : s₀.name ∉ given := fun earlier =>
      fills.fresh s₀ known earlier m List.mem_cons_self named
    have written := fills.takes s₀ known m List.mem_cons_self named
    obtain ⟨r, setter, eq, readBy, sets⟩ := reads.reads
    refine ⟨s₀.name, setter (s₀.get y), ?_, .sets known named new written (sets _)⟩
    rw [Layout.member, Member.body]
    refine bind_eq_ok_iff.mpr ⟨_, spelled, ?_⟩
    simp only [found, List.contains_eq_mem, new, decide_false, Bool.false_eq_true, if_false]
    refine bind_eq_ok_iff.mpr ⟨_, colon, bind_eq_ok_iff.mpr ⟨(setter (s₀.get y), rest), ?_, rfl⟩⟩
    rw [eq]
    exact map_eq_ok_iff.mpr ⟨s₀.get y, readBy.reads written m.before ends, rfl⟩
  · refine ⟨key, id, ?_, .nothing named unknown⟩
    rw [Layout.member, Member.body]
    refine bind_eq_ok_iff.mpr ⟨_, spelled, ?_⟩
    simp only [none]
    exact bind_eq_ok_iff.mpr ⟨_, colon,
      bind_eq_ok_iff.mpr ⟨rest, skipValue_text m.before m.value ends, rfl⟩⟩

theorem ends_of_members {turns : Nat} (some : given ≠ []) {x : α} {result : α × List Char}
    (h : l.members turns given x s = .ok result) : Ends s := by
  cases turns with
  | zero => cases h
  | succ turns =>
    rw [Layout.members, List.isEmpty_eq_false_iff.mpr some] at h
    obtain ⟨next, found, -⟩ := bind_eq_ok_iff.mp h
    exact ends_of_nextKey found

/-- **Reading the members of an object** gives what they make of the record before them. -/
theorem members_iff (h : d.ReadBy l) {members : List (Member Tree)} {turns : Nat}
    (enough : members.length < turns) (given : List String) (x : α) (gap : Blanks)
    (rest : List Char) (y : α) (s : List Char) :
    l.members turns given x
        (gap.val ++ (Tree.memberRow given.isEmpty members ++ ('\x7d' :: rest))) = .ok (y, s) ↔
      d.Fills given x y members ∧ s = rest := by
  induction members generalizing turns given x gap with
  | nil =>
    obtain ⟨turns, rfl⟩ := Nat.exists_eq_succ_of_ne_zero (Nat.ne_of_gt enough)
    rw [Layout.members, Tree.memberRow, List.nil_append, nextKey_close, fills_nil_iff h.lawful,
      ← missing?_eq_none_iff h]
    cases missing : l.missing? given with
    | none => simp [bind, Except.bind, pure, Except.pure, eq_comm]
    | some name => simp [bind, Except.bind]
  | cons m members ih =>
    obtain ⟨turns, rfl⟩ := Nat.exists_eq_succ_of_ne_zero (Nat.ne_zero_of_lt enough)
    have fewer : members.length < turns := Nat.lt_of_succ_lt_succ enough
    have ends := Tree.ends_append m.after (Tree.ends_memberRow members rest)
    rw [Layout.members, Tree.memberRow_cons]
    simp only [List.append_assoc, List.cons_append, nextKey_item]
    show (l.member given (m.body _) >>= fun p => l.members turns (p.1.1 :: given) (p.1.2 x) p.2) =
      _ ↔ _
    rw [bind_eq_ok_iff]
    constructor
    · rintro ⟨⟨⟨key, set⟩, s'⟩, parsed, more⟩
      -- as the rest of the object was read, the member was read to its end
      obtain ⟨does, rfl⟩ := of_member h ends parsed (ends_of_members (List.cons_ne_nil _ _) more)
      obtain ⟨fills, rfl⟩ := (ih fewer (key :: given) (set x) m.after).mp more
      exact ⟨(does.fills_iff h.lawful).mpr fills, rfl⟩
    · rintro ⟨fills, rfl⟩
      obtain ⟨key, set, parsed, does⟩ := exists_member h ends fills
      exact ⟨_, parsed, (ih fewer (key :: given) (set x) m.after).mpr
        ⟨(does.fills_iff h.lawful).mp fills, rfl⟩⟩

end

/-! ### Reading lists -/

section

variable {x y : α}

theorem ends_of_values {before : Nat} {fields : List (Field α)} {s : List Char}
    {result : α × List Char} (h : l.values (before + 1) fields x s = .ok result) : Ends s := by
  cases fields with
  | nil =>
    obtain ⟨_, closed, -⟩ := bind_eq_ok_iff.mp h
    exact ends_of_closeList closed
  | cons f fields =>
    obtain ⟨next, found, -⟩ := bind_eq_ok_iff.mp h
    exact ends_of_nextElement found

/-- A list that ends early leaves out the fields from some field on. -/
theorem values_closed_iff (h : d.ReadBy l) {front slots : List (Slot α)} {s₀ : Slot α}
    (all : d.slots = front ++ s₀ :: slots) (f : Field α) (fields : List (Field α)) (before : Nat)
    (gap : Blanks) (rest s : List Char) :
    l.values before (f :: fields) x (gap.val ++ (']' :: rest)) = .ok (y, s) ↔
      (∀ s' ∈ front, s'.get y = s'.get x) ∧ d.Lines x y (s₀ :: slots) [] ∧ s = rest := by
  rw [Layout.values, nextElement_close, lines_nil_iff]
  show (if l.complete then .error _ else .ok (x, rest)) = Except.ok (y, s) ↔ _
  rw [h.complete]
  constructor
  · intro read
    split at read
    · cases read
    · rename_i partly
      cases read
      exact ⟨fun _ _ => rfl, ⟨fun _ => Bool.eq_false_iff.mpr partly, fun _ _ => rfl⟩, rfl⟩
  · rintro ⟨same, ⟨partly, same'⟩, rfl⟩
    obtain rfl : y = x := by
      refine h.ext y x fun s' known => ?_
      rw [all] at known
      exact (List.mem_append.mp known).elim (same s') (same' s')
    rw [partly (List.cons_ne_nil _ _), if_neg Bool.false_ne_true]

/-- **Reading the items of a list** sets the fields from some field on; those in front of it
stay. -/
theorem values_iff (h : d.ReadBy l) {front slots : List (Slot α)} {fields : List (Field α)}
    (all : d.slots = front ++ slots) (reads : List.Forall₂ d.Reads slots fields) (before : Nat)
    (x : α) (gap : Blanks) (items : List (Item Tree)) (rest : List Char) (y : α) (s : List Char) :
    l.values before fields x (gap.val ++ (Tree.row (before == 0) items ++ (']' :: rest))) =
        .ok (y, s) ↔
      (∀ s' ∈ front, s'.get y = s'.get x) ∧ d.Lines x y slots items ∧ s = rest := by
  induction reads generalizing front before x gap items with
  | nil =>
    rw [List.append_nil] at all
    subst all
    show (closeList _ >>= fun s' => .ok (x, s')) = _ ↔ _
    rw [bind_eq_ok_iff, Lines]
    constructor
    -- no field is left, so no item may be
    · rintro ⟨_, closed, ⟨⟩⟩
      obtain ⟨rfl, rfl⟩ := (closeList_row_iff _ gap items rest _).mp closed
      exact ⟨fun _ _ => rfl, rfl, rfl⟩
    · rintro ⟨same, rfl, rfl⟩
      obtain rfl := h.ext y x same
      exact ⟨s, (closeList_row_iff _ gap [] s s).mpr ⟨rfl, rfl⟩, rfl⟩
  | @cons s₀ f slots fields reads _ ih =>
    cases items with
    | nil =>
      -- the list ends early, and the fields that are left are at their defaults
      rw [Tree.row, List.nil_append]
      exact values_closed_iff h all f fields before gap rest s
    | cons i items =>
      have ends := Tree.ends_append i.after (Tree.ends_row items rest)
      have all' : d.slots = (front ++ [s₀]) ++ slots := by simpa using all
      obtain ⟨r, set, eq, readBy, sets⟩ := reads.reads
      rw [Layout.values, Tree.row_cons]
      simp only [List.append_assoc, nextElement_item]
      show (f.read _ >>= fun p => l.values (before + 1) fields (p.1 x) p.2) = _ ↔ _
      rw [bind_eq_ok_iff, eq, Lines]
      constructor
      · rintro ⟨⟨set', s'⟩, parsed, more⟩
        -- the field set joins those in front, for which `y` is to agree with the record so far
        obtain ⟨v, taken, rfl⟩ := map_eq_ok_iff.mp parsed
        obtain ⟨written, rfl⟩ := (readBy.read_iff i.value ends v s').mp ⟨taken, ends_of_values more⟩
        obtain ⟨set_front, set_lines, rfl⟩ :=
          (ih all' (before + 1) (set v x) i.after items).mp more
        obtain ⟨same, rfl, lines⟩ :=
          (lines_set_iff all h.names (sets v) items).mp ⟨set_front, set_lines⟩
        exact ⟨same, ⟨written, lines⟩, rfl⟩
      · rintro ⟨same, ⟨written, lines⟩, rfl⟩
        obtain ⟨same, lines⟩ :=
          (lines_set_iff all h.names (sets (s₀.get y)) items).mpr ⟨same, rfl, lines⟩
        exact ⟨(set (s₀.get y), _), map_eq_ok_iff.mpr ⟨_, readBy.reads written .none ends, rfl⟩,
          (ih all' (before + 1) (set (s₀.get y) x) i.after items).mpr ⟨same, lines, rfl⟩⟩

end

/-! ### Reading records -/

/-- **The reader of a layout** reads the format of its schema. -/
theorem ReadBy.format (h : d.ReadBy l) : d.format.ReadBy l.reader := by
  intro t b rest ends x s
  -- an object is read by its members and a list by its values, both from the defaults
  have of_object (gap : Blanks) (members : List (Member Tree)) :
      l.reader (b.val ++ ((Tree.object gap members).text ++ rest)) = .ok (x, s) ↔
        d.Fills [] d.start x members ∧ s = rest := by
    have enough : members.length <
        (gap.val ++ (Tree.memberRow true members ++ ('\x7d' :: rest))).length + 1 := by
      have short := Tree.length_le_memberRow true members
      simp only [List.length_append]
      omega
    rw [Layout.reader, Tree.skipBlank_text, Tree.object_append, ← h.start]
    exact members_iff h enough [] l.start gap rest x s
  have of_list (gap : Blanks) (items : List (Item Tree)) :
      l.reader (b.val ++ ((Tree.list gap items).text ++ rest)) = .ok (x, s) ↔
        d.Lines d.start x d.slots items ∧ s = rest := by
    rw [Layout.reader, Tree.skipBlank_text, Tree.list_append, ← h.start]
    have all : d.slots = [] ++ d.slots := rfl
    refine (values_iff h all h.fields 0 l.start gap items rest x s).trans ?_
    simp
  constructor
  · rintro ⟨read, -⟩
    -- nothing else is read as a record
    have start := read
    rw [Layout.reader, Tree.skipBlank_text] at start
    split at start
    · rename_i eq
      obtain ⟨gap, items, rfl⟩ := Tree.eq_list_of_append eq
      obtain ⟨lines, rfl⟩ := (of_list gap items).mp read
      exact ⟨Or.inr ⟨gap, items, rfl, lines⟩, rfl⟩
    · rename_i eq
      obtain ⟨gap, members, rfl⟩ := Tree.eq_object_of_append eq
      obtain ⟨fills, rfl⟩ := (of_object gap members).mp read
      exact ⟨Or.inl ⟨gap, members, rfl, fills⟩, rfl⟩
    · cases start
  · rintro ⟨⟨gap, members, rfl, fills⟩ | ⟨gap, items, rfl, lines⟩, rfl⟩
    · exact ⟨(of_object gap members).mpr ⟨fills, rfl⟩, ends⟩
    · exact ⟨(of_list gap items).mpr ⟨lines, rfl⟩, ends⟩

end Schema

end ShellSale.Json
