import ShellSale.Proofs.Json.Lists

/-!
## How records are written

A schema says how a record is written: what its fields are called, how each is written, and whether
fields may be left out. An object writes a record if it gives no field twice, if every field that it
gives is written by the value given, and if every other field is as in the record that the schema
starts from; the order of its members and members under other names do not matter. A list writes it
if its values write the first fields in their order.

* `Schema.Fills`: what the members of an object make of a record; `Schema.fills_cons_known` and
  `Schema.fills_cons_unknown`: what one more member does.
* `Schema.exists_fills`: members that give no field twice and only valid values make some record.
* `Schema.Fills.eq_of_given`: which one depends on the values of known fields only.
* `Schema.lines_set_iff`: what setting one field does for a list.
-/

namespace ShellSale.Json

variable {α : Type}

/-- A field of a record, and how it is written. -/
structure Slot (α : Type) : Type 1 where
  {β : Type}
  name : String
  get : α → β
  format : Format β

/-- Whether members of an object give a field a value. -/
def Slot.IsGiven (s : Slot α) (v : s.β) (members : List (Member Tree)) : Prop :=
  ∃ m ∈ members, m.IsNamed s.name ∧ s.format.writes v m.value

/-- How a record is written. -/
structure Schema (α : Type) : Type 1 where
  title : String
  /-- The fields in their order. -/
  slots : List (Slot α)
  /-- The record whose fields stand in for those left out. -/
  start : α
  /-- Whether no field may be left out. -/
  complete : Bool

namespace Schema

/-! ### Formats of records -/

/-- Whether the members of an object have names and give no field twice, some fields being given
before them. -/
structure Distinct (d : Schema α) (given : List String) (members : List (Member Tree)) : Prop where
  keyed : ∀ m ∈ members, ∃ name, m.IsNamed name
  once : ∀ s ∈ d.slots, members.Pairwise fun m m' => ¬(m.IsNamed s.name ∧ m'.IsNamed s.name)
  fresh : ∀ s ∈ d.slots, s.name ∈ given → ∀ m ∈ members, ¬m.IsNamed s.name

/-- Whether the members of an object give fields valid values, and none is missing. -/
structure Admits (d : Schema α) (given : List String) (members : List (Member Tree)) : Prop extends
    d.Distinct given members where
  valid : ∀ s ∈ d.slots, ∀ m ∈ members, m.IsNamed s.name → ∃ v, s.format.writes v m.value
  whole : d.complete = true → ∀ s ∈ d.slots, s.name ∈ given ∨ ∃ m ∈ members, m.IsNamed s.name

/-- Whether some members make a record `y` of a record `x`, some fields being given before them. -/
structure Fills (d : Schema α) (given : List String) (x y : α) (members : List (Member Tree)) :
    Prop extends d.Distinct given members where
  takes : ∀ s ∈ d.slots, ∀ m ∈ members, m.IsNamed s.name → s.format.writes (s.get y) m.value
  keeps : ∀ s ∈ d.slots, (∀ m ∈ members, ¬m.IsNamed s.name) →
    (d.complete = true → s.name ∈ given) ∧ s.get y = s.get x

/-- Whether a record has the values that the members of an object give, and those of the start
elsewhere. -/
structure Tells (d : Schema α) (members : List (Member Tree)) (x : α) : Prop where
  given : ∀ s ∈ d.slots, ∀ v, s.IsGiven v members → s.get x = v
  otherwise : ∀ s ∈ d.slots, (∀ m ∈ members, ¬m.IsNamed s.name) → s.get x = s.get d.start

/-- Whether the items of a list make a record `y` of a record `x`, from some field on. -/
def Lines (d : Schema α) (x y : α) : List (Slot α) → List (Item Tree) → Prop
  | [], items => items = []
  | s :: slots, [] => d.complete = false ∧ s.get y = s.get x ∧ d.Lines x y slots []
  | s :: slots, i :: items => s.format.writes (s.get y) i.value ∧ d.Lines x y slots items

/-- Whether the members of an object have a fault. -/
def SpoilsMembers (d : Schema α) (fault : Fault) (members : List (Member Tree)) : Prop :=
  (∃ s ∈ d.slots, fault = .repeated d.title s.name ∧
    ∃ m m', [m, m'].Sublist members ∧ m.IsNamed s.name ∧ m'.IsNamed s.name) ∨
  (d.complete = true ∧ ∃ s ∈ d.slots, fault = .missing d.title s.name ∧
    ∀ m ∈ members, ¬m.IsNamed s.name) ∨
  ∃ s ∈ d.slots, ∃ m ∈ members, m.IsNamed s.name ∧ s.format.spoils fault m.value

/-- Whether the items of a list have a fault, from some field on. -/
def SpoilsItems (d : Schema α) (fault : Fault) : List (Slot α) → List (Item Tree) → Prop
  | [], _ => False
  | s :: slots, [] =>
    d.complete = true ∧ fault = .missing d.title s.name ∨ d.SpoilsItems fault slots []
  | s :: slots, i :: items => s.format.spoils fault i.value ∨ d.SpoilsItems fault slots items

theorem not_fills_of_spoils {d : Schema α} {fault : Fault} {members : List (Member Tree)}
    (spoiled : d.SpoilsMembers fault members) (x y : α) : ¬d.Fills [] x y members := by
  intro fills
  rcases spoiled with ⟨s, known, -, m, m', both, named, named'⟩ |
    ⟨complete, s, known, -, absent⟩ | ⟨s, known, m, mem, named, inside⟩
  · exact List.pairwise_iff_forall_sublist.mp (fills.once s known) both ⟨named, named'⟩
  · exact List.not_mem_nil ((fills.keeps s known absent).1 complete)
  · exact s.format.unwritten inside _ (fills.takes s known m mem named)

theorem not_lines_of_spoils {d : Schema α} {fault : Fault} {slots : List (Slot α)}
    {items : List (Item Tree)} (spoiled : d.SpoilsItems fault slots items) (x y : α) :
    ¬d.Lines x y slots items := by
  induction slots generalizing items with
  | nil => exact spoiled.elim
  | cons s slots ih =>
    cases items with
    | nil =>
      rintro ⟨open_, -, rest⟩
      rcases spoiled with ⟨complete, -⟩ | later
      · rw [open_] at complete
        cases complete
      · exact ih later rest
    | cons i items =>
      rintro ⟨written, rest⟩
      rcases spoiled with inside | later
      · exact s.format.unwritten inside _ written
      · exact ih later rest

/-- The format of a record. -/
def format (d : Schema α) : Format α where
  writes x t := (∃ gap members, t = .object gap members ∧ d.Fills [] d.start x members) ∨
    ∃ gap items, t = .list gap items ∧ d.Lines d.start x d.slots items
  spoils fault t := (∃ gap members, t = .object gap members ∧ d.SpoilsMembers fault members) ∨
    ∃ gap items, t = .list gap items ∧ d.SpoilsItems fault d.slots items
  unwritten := by
    rintro fault _ (⟨gap, members, rfl, spoiled⟩ | ⟨gap, items, rfl, spoiled⟩) x
    · rintro (⟨_, _, ⟨⟩, fills⟩ | ⟨_, _, ⟨⟩, _⟩)
      exact not_fills_of_spoils spoiled _ _ fills
    · rintro (⟨_, _, ⟨⟩, _⟩ | ⟨_, _, ⟨⟩, lines⟩)
      exact not_lines_of_spoils spoiled _ _ lines

/-! ### Setting fields -/

/-- Whether a function sets a field of a record and nothing else. -/
def Sets (d : Schema α) (s : Slot α) (v : s.β) (set : α → α) : Prop :=
  ∀ x, s.get (set x) = v ∧ ∀ s' ∈ d.slots, s'.name ≠ s.name → s'.get (set x) = s'.get x

/-- What makes a record the values of its fields: no two fields share a name, a record is told by
its fields, every field can be set alone, and what is written for it is one value. -/
structure Lawful (d : Schema α) : Prop where
  names : (d.slots.map (·.name)).Nodup
  ext : ∀ x y, (∀ s ∈ d.slots, s.get x = s.get y) → x = y
  settable : ∀ s ∈ d.slots, ∀ v, ∃ set, d.Sets s v set
  unique : ∀ s ∈ d.slots, ∀ t v v', s.format.writes v t → s.format.writes v' t → v = v'

/-! ### Objects -/

variable {d : Schema α} {x y : α}

section

variable {s₀ : Slot α} {m : Member Tree} {members : List (Member Tree)} {given : List String}
  {name : String}

/-- A member gives the field of its name, which no other member may give. -/
theorem distinct_cons_iff (named₀ : m.IsNamed name) :
    d.Distinct given (m :: members) ↔
      d.Distinct (name :: given) members ∧ ∀ s ∈ d.slots, s.name = name → s.name ∉ given := by
  constructor
  · intro h
    refine ⟨⟨fun m' mem => h.keyed m' (List.mem_cons_of_mem m mem),
      fun s known => (List.pairwise_cons.mp (h.once s known)).2,
      fun s known earlier m' mem named => ?_⟩,
      fun s known eq earlier => h.fresh s known earlier m List.mem_cons_self (eq ▸ named₀)⟩
    rcases List.mem_cons.mp earlier with eq | earlier
    · exact (List.pairwise_cons.mp (h.once s known)).1 m' mem ⟨eq ▸ named₀, named⟩
    · exact h.fresh s known earlier m' (List.mem_cons_of_mem m mem) named
  · rintro ⟨h, new⟩
    refine ⟨List.forall_mem_cons.mpr ⟨⟨name, named₀⟩, h.keyed⟩, fun s known =>
      List.pairwise_cons.mpr ⟨fun m' mem ⟨named, named'⟩ => ?_, h.once s known⟩,
      fun s known earlier => List.forall_mem_cons.mpr
        ⟨fun named => new s known (named.unique named₀) earlier,
          h.fresh s known (List.mem_cons_of_mem name earlier)⟩⟩
    have again : s.name ∈ name :: given := named.unique named₀ ▸ List.mem_cons_self
    exact h.fresh s known again m' mem named'

theorem Admits.tail (h : d.Admits given (m :: members)) (named₀ : m.IsNamed name) :
    d.Admits (name :: given) members where
  toDistinct := ((distinct_cons_iff named₀).mp h.toDistinct).1
  valid s known m' mem := h.valid s known m' (List.mem_cons_of_mem m mem)
  whole complete s known := by
    rcases h.whole complete s known with earlier | ⟨m', mem, named⟩
    · exact Or.inl (List.mem_cons_of_mem name earlier)
    · rcases List.mem_cons.mp mem with rfl | mem
      · exact Or.inl (named.unique named₀ ▸ List.mem_cons_self)
      · exact Or.inr ⟨m', mem, named⟩

theorem fills_nil_iff (lawful : d.Lawful) :
    d.Fills given x y [] ↔ (d.complete = true → ∀ s ∈ d.slots, s.name ∈ given) ∧ y = x := by
  constructor
  · intro h
    have kept := fun s known => h.keeps s known fun m mem => absurd mem List.not_mem_nil
    exact ⟨fun complete s known => (kept s known).1 complete,
      lawful.ext y x fun s known => (kept s known).2⟩
  · rintro ⟨all, rfl⟩
    exact {
      keyed := by simp
      once := by simp
      fresh := by simp
      takes := by simp
      keeps := fun s known _ => ⟨fun complete => all complete s known, rfl⟩ }

/-- **A member of a known name** sets its field. -/
theorem fills_cons_known (lawful : d.Lawful) (known₀ : s₀ ∈ d.slots) (named₀ : m.IsNamed s₀.name)
    (new : s₀.name ∉ given) {v : s₀.β} {set : α → α} (written : s₀.format.writes v m.value)
    (sets : d.Sets s₀ v set) :
    d.Fills given x y (m :: members) ↔ d.Fills (s₀.name :: given) (set x) y members := by
  have same : ∀ s ∈ d.slots, s.name = s₀.name → s = s₀ := fun s known eq =>
    List.inj_on_of_nodup_map lawful.names known known₀ eq
  constructor
  · intro h
    exact {
      toDistinct := ((distinct_cons_iff named₀).mp h.toDistinct).1
      takes := fun s known m' mem => h.takes s known m' (List.mem_cons_of_mem m mem)
      keeps := fun s known absent => by
        -- the field just set is no longer to be kept as it was in `x`
        by_cases eq : s.name = s₀.name
        · obtain rfl := same s known eq
          have taken := lawful.unique s known m.value _ _
            (h.takes s known m List.mem_cons_self named₀) written
          exact ⟨fun _ => List.mem_cons_self, taken.trans (sets x).1.symm⟩
        · have other : ¬m.IsNamed s.name := fun named => eq (named.unique named₀)
          obtain ⟨needed, kept⟩ := h.keeps s known (List.forall_mem_cons.mpr ⟨other, absent⟩)
          exact ⟨fun complete => List.mem_cons_of_mem _ (needed complete),
            kept.trans ((sets x).2 s known eq).symm⟩ }
  · intro h
    have alone := h.fresh s₀ known₀ List.mem_cons_self
    exact {
      -- no later member names the field, so what is kept of it is what was set
      toDistinct := (distinct_cons_iff named₀).mpr ⟨h.toDistinct, fun s _ eq => eq ▸ new⟩
      takes := fun s known => by
        refine List.forall_mem_cons.mpr ⟨fun named => ?_, h.takes s known⟩
        obtain rfl := same s known (named.unique named₀)
        rw [(h.keeps s known alone).2, (sets x).1]
        exact written
      keeps := fun s known absent => by
        obtain ⟨other, absent⟩ := List.forall_mem_cons.mp absent
        have ne : s.name ≠ s₀.name := fun eq => other (eq ▸ named₀)
        obtain ⟨needed, kept⟩ := h.keeps s known absent
        exact ⟨fun complete => (List.mem_cons.mp (needed complete)).resolve_left ne,
          kept.trans ((sets x).2 s known ne)⟩ }

/-- **A member of an unknown name** does nothing. -/
theorem fills_cons_unknown (named₀ : m.IsNamed name) (unknown : ∀ s ∈ d.slots, s.name ≠ name) :
    d.Fills given x y (m :: members) ↔ d.Fills (name :: given) x y members := by
  have other : ∀ s ∈ d.slots, ¬m.IsNamed s.name := fun s known named =>
    unknown s known (named.unique named₀)
  constructor
  · intro h
    exact {
      toDistinct := ((distinct_cons_iff named₀).mp h.toDistinct).1
      takes := fun s known m' mem => h.takes s known m' (List.mem_cons_of_mem m mem)
      keeps := fun s known absent => by
        obtain ⟨needed, kept⟩ :=
          h.keeps s known (List.forall_mem_cons.mpr ⟨other s known, absent⟩)
        exact ⟨fun complete => List.mem_cons_of_mem _ (needed complete), kept⟩ }
  · intro h
    exact {
      toDistinct := (distinct_cons_iff named₀).mpr
        ⟨h.toDistinct, fun s known eq => absurd eq (unknown s known)⟩
      takes := fun s known => List.forall_mem_cons.mpr
        ⟨fun named => absurd named (other s known), h.takes s known⟩
      keeps := fun s known absent => by
        obtain ⟨needed, kept⟩ := h.keeps s known (List.forall_mem_cons.mp absent).2
        exact ⟨fun complete =>
          (List.mem_cons.mp (needed complete)).resolve_left (unknown s known), kept⟩ }

/-- Members that give no field twice and only valid values make some record. -/
theorem Admits.exists_fills (lawful : d.Lawful) (h : d.Admits given members) (x : α) :
    ∃ y, d.Fills given x y members := by
  induction members generalizing given x with
  | nil =>
    refine ⟨x, (fills_nil_iff lawful).mpr ⟨fun complete s known => ?_, rfl⟩⟩
    exact (h.whole complete s known).resolve_right fun ⟨m, mem, _⟩ => List.not_mem_nil mem
  | cons m members ih =>
    obtain ⟨name, named⟩ := h.keyed m List.mem_cons_self
    by_cases known : ∃ s ∈ d.slots, s.name = name
    · obtain ⟨s, known, rfl⟩ := known
      obtain ⟨v, written⟩ := h.valid s known m List.mem_cons_self named
      obtain ⟨set, sets⟩ := lawful.settable s known v
      have new : s.name ∉ given := fun earlier =>
        h.fresh s known earlier m List.mem_cons_self named
      obtain ⟨y, fills⟩ := ih (h.tail named) (set x)
      exact ⟨y, (fills_cons_known lawful known named new written sets).mpr fills⟩
    · obtain ⟨y, fills⟩ := ih (h.tail named) x
      exact ⟨y, (fills_cons_unknown named fun s known' eq => known ⟨s, known', eq⟩).mpr fills⟩

theorem Fills.admits (h : d.Fills given x y members) : d.Admits given members where
  toDistinct := h.toDistinct
  valid s known m mem named := ⟨s.get y, h.takes s known m mem named⟩
  whole complete s known := by
    by_cases absent : ∀ m ∈ members, ¬m.IsNamed s.name
    · exact Or.inl ((h.keeps s known absent).1 complete)
    · push Not at absent
      exact Or.inr absent

theorem Fills.isGiven_iff (lawful : d.Lawful) (h : d.Fills given x y members) {s : Slot α}
    (known : s ∈ d.slots) (v : s.β) :
    s.IsGiven v members ↔ (∃ m ∈ members, m.IsNamed s.name) ∧ v = s.get y := by
  constructor
  · rintro ⟨m, mem, named, written⟩
    exact ⟨⟨m, mem, named⟩, lawful.unique s known m.value _ _ written (h.takes s known m mem named)⟩
  · rintro ⟨⟨m, mem, named⟩, rfl⟩
    exact ⟨m, mem, named, h.takes s known m mem named⟩

theorem Fills.tells (lawful : d.Lawful) (h : d.Fills given d.start y members) :
    d.Tells members y where
  given _ known v value := ((h.isGiven_iff lawful known v).mp value).2.symm
  otherwise s known absent := (h.keeps s known absent).2

/-- What members make of a record depends only on the values that they give to its fields. -/
theorem Fills.eq_of_given (lawful : d.Lawful) {members' : List (Member Tree)} {y' : α}
    (h : d.Fills given x y members) (h' : d.Fills given x y' members')
    (same : ∀ s ∈ d.slots, ∀ v, s.IsGiven v members ↔ s.IsGiven v members') : y = y' := by
  refine lawful.ext y y' fun s known => ?_
  by_cases given : ∃ m ∈ members, m.IsNamed s.name
  · have value := (h.isGiven_iff lawful known _).mpr ⟨given, rfl⟩
    exact ((h'.isGiven_iff lawful known _).mp ((same s known _).mp value)).2
  · have absent : ¬∃ m ∈ members', m.IsNamed s.name := fun given' => by
      have value := (h'.isGiven_iff lawful known _).mpr ⟨given', rfl⟩
      exact given ((h.isGiven_iff lawful known _).mp ((same s known _).mpr value)).1
    push Not at given absent
    rw [(h.keeps s known given).2, (h'.keeps s known absent).2]

theorem writes_object_iff (gap : Blanks) :
    d.format.writes y (.object gap members) ↔ d.Fills [] d.start y members := by
  constructor
  · rintro (⟨_, _, ⟨⟩, fills⟩ | ⟨_, _, ⟨⟩, _⟩)
    exact fills
  · exact fun fills => Or.inl ⟨gap, members, rfl, fills⟩

end

/-- Which objects write a record: those that give no field twice, only valid values, and what has to
be given. The record has the values given, and nothing else of the object matters. -/
structure WrittenInPart (d : Schema α) : Prop where
  valid : ∀ gap members, d.Admits [] members ↔ ∃ x, d.format.writes x (.object gap members)
  tells : ∀ gap members x, d.format.writes x (.object gap members) → d.Tells members x
  alike : ∀ members members', d.Admits [] members → d.Admits [] members' →
    (∀ s ∈ d.slots, ∀ v, s.IsGiven v members ↔ s.IsGiven v members') →
    ∀ gap gap' x, d.format.writes x (.object gap members) ↔
      d.format.writes x (.object gap' members')

theorem Lawful.writtenInPart (lawful : d.Lawful) : d.WrittenInPart where
  valid gap members := by
    simp only [writes_object_iff]
    exact ⟨fun h => h.exists_fills lawful d.start, fun ⟨_, fills⟩ => fills.admits⟩
  tells gap members x written := ((writes_object_iff gap).mp written).tells lawful
  alike members members' h h' same gap gap' x := by
    obtain ⟨z, fills⟩ := h.exists_fills lawful d.start
    obtain ⟨z', fills'⟩ := h'.exists_fills lawful d.start
    rw [writes_object_iff, writes_object_iff]
    constructor
    · intro written
      exact written.eq_of_given lawful fills' same ▸ fills'
    · intro written
      have back := fun s known v => (same s known v).symm
      exact written.eq_of_given lawful fills back ▸ fills

/-! ### Lists -/

theorem lines_nil_iff (slots : List (Slot α)) :
    d.Lines x y slots [] ↔
      (slots ≠ [] → d.complete = false) ∧ ∀ s ∈ slots, s.get y = s.get x := by
  induction slots with
  | nil => simp [Lines]
  | cons s slots ih =>
    rw [Lines, ih]
    simp
    tauto

/-- What fields a list leaves out does not depend on the others. -/
theorem lines_congr {x' : α} {slots : List (Slot α)} {items : List (Item Tree)}
    (same : ∀ s ∈ slots, s.get x' = s.get x) :
    d.Lines x' y slots items ↔ d.Lines x y slots items := by
  induction slots generalizing items with
  | nil => rfl
  | cons s slots ih =>
    obtain ⟨here, later⟩ := List.forall_mem_cons.mp same
    cases items with
    | nil => rw [Lines, Lines, here, ih later]
    | cons i items => rw [Lines, Lines, ih later]

/-- Setting a field leaves those in front of it and behind it as they are. -/
theorem Sets.others {s₀ : Slot α} {front slots : List (Slot α)}
    (all : d.slots = front ++ s₀ :: slots) (names : (d.slots.map (·.name)).Nodup) {v : s₀.β}
    {set : α → α} (sets : d.Sets s₀ v set) (x : α) :
    ∀ s ∈ front ++ slots, s.get (set x) = s.get x := by
  intro s mem
  have inside : s ∈ s₀ :: (front ++ slots) := List.mem_cons_of_mem s₀ mem
  rw [all, List.map_append, List.map_cons, List.nodup_middle, ← List.map_append,
    List.nodup_cons] at names
  refine (sets x).2 s (all ▸ List.perm_middle.mem_iff.mpr inside) fun eq => ?_
  exact names.1 (eq ▸ List.mem_map_of_mem mem)

theorem lines_set_iff {s₀ : Slot α} {front slots : List (Slot α)}
    (all : d.slots = front ++ s₀ :: slots) (names : (d.slots.map (·.name)).Nodup) {v : s₀.β}
    {set : α → α} (sets : d.Sets s₀ v set) (items : List (Item Tree)) :
    (∀ s ∈ front ++ [s₀], s.get y = s.get (set x)) ∧ d.Lines (set x) y slots items ↔
      (∀ s ∈ front, s.get y = s.get x) ∧ s₀.get y = v ∧ d.Lines x y slots items := by
  obtain ⟨before, behind⟩ := List.forall_mem_append.mp (sets.others all names x)
  have front_iff : (∀ s ∈ front, s.get y = s.get (set x)) ↔ ∀ s ∈ front, s.get y = s.get x :=
    forall₂_congr fun s mem => by rw [before s mem]
  rw [lines_congr behind, List.forall_mem_append, List.forall_mem_singleton, (sets x).1, front_iff,
    and_assoc]


end Schema

end ShellSale.Json
