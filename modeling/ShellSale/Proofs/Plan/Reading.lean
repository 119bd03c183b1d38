import ShellSale.Proofs.Plan.Writing

/-!
## Reading plans

What is read of the text of a plan, whatever its blanks, its escapes and the order of its fields.

* `SalePlan.read_members`: a plan may leave out fields and have unknown ones, and so may its
  collections and its incubation; a field that is given twice, or left out where it must not be, is
  an error.
* `SalePlan.read_written`: a plan is read as it was written, and no number is cut down to its type.
-/

namespace ShellSale

open Json

namespace SalePlan

/-! ### Partial plans -/

/-- **Partial plans.** An object whose members give fields of a plan, each once and with a valid
value, besides members of unknown names, is read as the plan with the values given and the defaults
elsewhere; what else it consists of does not matter. The same holds inside its collections and its
incubation. A field given twice, or left out of a record that has to be complete, is an error
wherever it occurs. -/
theorem read_members :
    (∀ members, schema.Admits [] members → ∃ p : SalePlan,
      (∀ before gap after, read (Tree.document before (.object gap members) after) = .ok p) ∧
      schema.Tells members p ∧
      ∀ m ∈ members, ∀ gap inner, m.value = .object gap inner →
        (m.IsNamed "collections" → Collections.schema.Tells inner p.collections) ∧
        (m.IsNamed "incubation" → IncubationPlan.schema.Tells inner p.incubation)) ∧
    (∀ members members', schema.Admits [] members → schema.Admits [] members' →
      (∀ s ∈ schema.slots, ∀ v, s.IsGiven v members ↔ s.IsGiven v members') →
      ∀ before gap after before' gap' after',
        read (Tree.document before (.object gap members) after) =
          read (Tree.document before' (.object gap' members') after')) ∧
    Collections.schema.WrittenInPart ∧ IncubationPlan.schema.WrittenInPart ∧
    ∀ record field t, schema.format.spoils (.repeated record field) t ∨
        schema.format.spoils (.missing record field) t →
      ∀ before after, ∃ e, read (Tree.document before t after) = .error e := by
  have plan := readBy.lawful.writtenInPart
  have collections := Collections.readBy.lawful.writtenInPart
  have incubation := IncubationPlan.readBy.lawful.writtenInPart
  refine ⟨?_, ?_, collections, incubation, ?_⟩
  · intro members admits
    obtain ⟨p, written⟩ := (plan.valid .none members).mp admits
    have fills := (Schema.writes_object_iff .none).mp written
    refine ⟨p, fun before gap after => ?_, plan.tells .none members p written, ?_⟩
    · exact (read_eq_ok_iff before _ after p).mpr ((Schema.writes_object_iff gap).mpr fills)
    · intro m mem gap inner value
      constructor
      · intro named
        have taken := fills.takes ⟨"collections", SalePlan.collections, Collections.schema.format⟩
          (by simp [schema]) m mem named
        exact collections.tells gap inner p.collections (value ▸ taken)
      · intro named
        have taken := fills.takes ⟨"incubation", SalePlan.incubation, IncubationPlan.schema.format⟩
          (by simp [schema]) m mem named
        exact incubation.tells gap inner p.incubation (value ▸ taken)
  · intro members members' admits admits' same before gap after before' gap' after'
    obtain ⟨p, written⟩ := (plan.valid gap members).mp admits
    have written' := (plan.alike members members' admits admits' same gap gap' p).mp written
    rw [(read_eq_ok_iff before _ after p).mpr written,
      (read_eq_ok_iff before' _ after' p).mpr written']
  · rintro record field t (repeated | missing) before after
    · exact exists_read_eq_error repeated before after
    · exact exists_read_eq_error missing before after

/-- Members that give two fields of a plan and one that no plan has. -/
def sparseMembers : List (Member Tree) := [
  .of "spirit_claim_funding" (.number (.ofNat 7)),
  .of "x" (.list .none [.of .null]),
  .of "collections" (.object .none [.of "y" .null])]

theorem admits_sparseMembers : schema.Admits [] sparseMembers where
  keyed := by simp [sparseMembers]
  once := by simp [sparseMembers, schema]
  fresh := by simp
  valid := by
    have amount : ∃ n, Format.word128.writes n (.number (.ofNat 7)) :=
      ⟨7, by decide, _, rfl, Literal.text_ofNat 7⟩
    have collections : Collections.schema.Admits [] [.of "y" .null] := {
      keyed := by simp
      once := by simp
      fresh := by simp
      valid := by simp [Collections.schema]
      whole := by simp [Collections.schema] }
    have written := (Collections.readBy.lawful.writtenInPart.valid .none _).mp collections
    simpa [sparseMembers, schema] using ⟨written, amount⟩
  whole := by simp [schema]

theorem read_members_sparse : schema.Admits [] sparseMembers ∧
    (∃ p : SalePlan,
      read "\x7b\"spirit_claim_funding\":7,\"x\":[null],\"collections\":\x7b\"y\":null\x7d\x7d" =
        .ok p ∧
      p.spiritClaimFunding = 7 ∧ p.collections = {} ∧
      p.preorders = ({} : SalePlan).preorders) ∧
    ∃ e, read "\x7b\"open_spirit_claims\":true,\"open_spirit_claims\":true\x7d" = .error e := by
  have text : Tree.document .none (.object .none sparseMembers) .none =
      "\x7b\"spirit_claim_funding\":7,\"x\":[null],\"collections\":\x7b\"y\":null\x7d\x7d" := by
    decide
  have twice : Tree.document .none (.object .none [.of "open_spirit_claims" (.flag true),
      .of "open_spirit_claims" (.flag true)]) .none =
        "\x7b\"open_spirit_claims\":true,\"open_spirit_claims\":true\x7d" := by decide
  obtain ⟨partly, -, -, -, refused⟩ := read_members
  obtain ⟨p, reads, tells, inside⟩ := partly sparseMembers admits_sparseMembers
  refine ⟨admits_sparseMembers, ⟨p, text ▸ reads .none .none .none, ?_, ?_, ?_⟩, ?_⟩
  · refine tells.given ⟨"spirit_claim_funding", spiritClaimFunding, .word128⟩
      (by simp [schema]) 7 ⟨_, List.mem_cons_self, (isNamed_of_iff _ _ _).mpr rfl, ?_⟩
    exact ⟨by decide, _, rfl, Literal.text_ofNat 7⟩
  -- the unknown member tells nothing of the collections, so they are at their defaults
  · have listed : Member.of "collections" (.object .none [.of "y" .null]) ∈
        sparseMembers := by simp [sparseMembers]
    have told := (inside _ listed .none _ rfl).1 ((isNamed_of_iff _ _ _).mpr rfl)
    refine Collections.readBy.ext p.collections {} fun s known => told.otherwise s known ?_
    have other : ∀ s ∈ Collections.schema.slots, "y" ≠ s.name := by simp [Collections.schema]
    simpa using other s known
  · exact tells.otherwise ⟨"preorders", preorders, .list ShellChoice.schema.format⟩
      (by simp [schema]) (by simp [sparseMembers])
  · rw [← twice]
    refine refused "SalePlan" "open_spirit_claims" _
      (Or.inl (Or.inl ⟨.none, _, rfl, Or.inl ?_⟩)) .none .none
    exact ⟨⟨"open_spirit_claims", openSpiritClaims, .flag⟩, by simp [schema], rfl, _, _,
      .refl _, (isNamed_of_iff _ _ _).mpr rfl, (isNamed_of_iff _ _ _).mpr rfl⟩

/-! ### Written plans -/

/-- **Written plans.** A text that writes a plan, with whatever blanks, escapes and order of fields,
is read as this plan; every plan whose numbers fit their types has such a text that gives all
fields. A text with a number that does not fit its type is refused. -/
theorem read_written :
    (∀ p t, schema.format.writes p t →
      ∀ before after, read (Tree.document before t after) = .ok p) ∧
    (∀ p : SalePlan, p.InRange → ∃ gap members, schema.format.writes p (.object gap members) ∧
      ∀ s ∈ schema.slots, ∃ m ∈ members, m.IsNamed s.name) ∧
    ∀ n t, schema.format.spoils (.tooLarge n) t →
      ∀ before after, ∃ e, read (Tree.document before t after) = .error e := by
  refine ⟨fun p t written before after => (read_eq_ok_iff before t after p).mpr written, ?_,
    fun n t spoiled before after => exists_read_eq_error spoiled before after⟩
  intro p inRange
  obtain ⟨members, fills, all⟩ := inRange.exists_members
  exact ⟨.none, members, (Schema.writes_object_iff .none).mpr fills, all⟩

/-- A plan that gives a field by an escaped name and a value by its surrogates. -/
def escapedMembers : List (Member Tree) := [{
  Item.of (.string [.unit 'd' '8' '3' 'd' 0xD83D rfl, .unit 'd' 'e' '0' '0' 0xDE00 rfl]) with
  gap := ⟨['\n'], List.forall_mem_singleton.mpr rfl⟩
  key := Piece.ofText "spirit" ++ .unit '0' '0' '5' 'F' 0x5F rfl :: Piece.ofText "metadata"
  behind := ⟨[' '], List.forall_mem_singleton.mpr rfl⟩ }]

theorem isNamed_escapedMembers : ∀ m ∈ escapedMembers, m.IsNamed "spirit_metadata" := by
  have underscore : Spells (.unit '0' '0' '5' 'F' '_'.toNat rfl :: Piece.ofText "metadata")
      ('_' :: "metadata".toList) := .unit (spells_ofText "metadata")
  intro m mem
  obtain rfl := List.mem_singleton.mp mem
  exact (spells_ofText "spirit").append underscore

theorem spells_grin : Spells [.unit 'd' '8' '3' 'd' 0xD83D rfl, .unit 'd' 'e' '0' '0' 0xDE00 rfl]
    "😀".toList :=
  .pair (x := '😀') (by decide) .nil

theorem fills_escapedMembers : schema.Fills [] {} { spiritMetadata := "😀" } escapedMembers where
  keyed m mem := ⟨_, isNamed_escapedMembers m mem⟩
  once := by simp [escapedMembers]
  fresh := by simp
  takes := by
    intro s known m mem named
    have only : s = ⟨"spirit_metadata", spiritMetadata, .text⟩ :=
      List.inj_on_of_nodup_map readBy.names known (by simp [schema])
        (named.unique (isNamed_escapedMembers m mem))
    subst only
    obtain rfl := List.mem_singleton.mp mem
    exact ⟨_, rfl, spells_grin⟩
  keeps := by
    have others : ∀ s ∈ schema.slots, s.name ≠ "spirit_metadata" →
        s.get { spiritMetadata := "😀" } = s.get {} := by simp [schema]
    intro s known absent
    refine ⟨fun complete => Bool.noConfusion complete, others s known fun eq => ?_⟩
    exact absent _ List.mem_cons_self (eq ▸ isNamed_escapedMembers _ List.mem_cons_self)

theorem read_written_escaped :
    read "\x7b\n\"spirit\\u005Fmetadata\" :\"\\ud83d\\ude00\"\x7d" =
      .ok { spiritMetadata := "😀" } ∧
    (∃ t, schema.format.writes {} t ∧ read (t.document .none .none) = .ok {}) ∧
    ∃ e, read "\x7b\"spirit_claim_funding\":340282366920938463463374607431768211456\x7d" =
      .error e := by
  have text : Tree.document .none (.object .none escapedMembers) .none =
      "\x7b\n\"spirit\\u005Fmetadata\" :\"\\ud83d\\ude00\"\x7d" := by decide
  have large : Tree.document .none
      (.object .none [.of "spirit_claim_funding" (.number (.ofNat Reader.bound128))]) .none =
        "\x7b\"spirit_claim_funding\":340282366920938463463374607431768211456\x7d" := by decide
  obtain ⟨reads, exist, refuses⟩ := read_written
  have escaped := (Schema.writes_object_iff .none).mpr fills_escapedMembers
  obtain ⟨gap, members, written, -⟩ := exist {} inRange_default
  refine ⟨text ▸ reads _ _ escaped .none .none, ⟨_, written, reads _ _ written .none .none⟩, ?_⟩
  rw [← large]
  refine refuses Reader.bound128 _ (Or.inl ⟨.none, _, rfl, Or.inr (Or.inr ?_)⟩) .none .none
  refine ⟨⟨"spirit_claim_funding", spiritClaimFunding, .word128⟩, by simp [schema], _,
    List.mem_cons_self, (isNamed_of_iff _ _ _).mpr rfl, ?_⟩
  exact ⟨Reader.bound128, rfl, Nat.le_refl _, _, rfl, Literal.text_ofNat _⟩

end SalePlan

end ShellSale
