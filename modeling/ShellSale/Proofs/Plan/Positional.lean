import ShellSale.Proofs.Json.Places
import ShellSale.Proofs.Json.Writing
import ShellSale.Proofs.Plan.Documents

/-!
## Records of a plan as lists

Every record in a plan, at any depth, may be written as a list of its values in the order of its
fields instead of an object, and such lists and objects may be mixed in one text.

* `SalePlan.read_positional` is the main result.
-/

namespace ShellSale

open Json

namespace SalePlan

/-- **Records as lists.** Let `c` be what stands around a place for a record in a plan. An object
there and a list of its values in the order of the fields are read as the same plan, or neither is
read, if the object gives no others than the first fields; for every object with the first `k`
fields, be it with all of them, there is such a list. A list with more values than fields is
refused, and so is one with fewer unless fields may be left out, as they may in a plan, its
collections and its incubation only. -/
theorem read_positional :
    (∀ text p, read text = .ok p → ∃ before t after, text = Tree.document before t after) ∧
    (∀ {β : Type} (d : Schema β) (c : Tree → Tree), Place d.format schema.format c →
      ∀ before after : Blanks,
        (∀ members items, d.Lists members items → ∀ gap gap' p,
          read (Tree.document before (c (.object gap members)) after) = .ok p ↔
            read (Tree.document before (c (.list gap' items)) after) = .ok p) ∧
        (∀ gap members p, read (Tree.document before (c (.object gap members)) after) = .ok p →
          ∀ k ≤ d.slots.length, (∀ s ∈ d.slots.take k, ∃ m ∈ members, m.IsNamed s.name) →
            (∀ s ∈ d.slots.drop k, ∀ m ∈ members, ¬m.IsNamed s.name) →
            ∃ items, items.length = k ∧ d.Lists members items) ∧
        ∀ gap items, d.slots.length < items.length ∨
            d.complete = true ∧ items.length < d.slots.length →
          ∃ e, read (Tree.document before (c (.list gap items)) after) = .error e) ∧
    (schema.complete = false ∧ Collections.schema.complete = false ∧
      IncubationPlan.schema.complete = false) ∧
    Funding.schema.complete = true ∧ CollectionPlan.schema.complete = true ∧
    RarePurchase.schema.complete = true ∧ ShellChoice.schema.complete = true ∧
    Inventory.schema.complete = true ∧ Holding.schema.complete = true ∧
    Feeding.schema.complete = true := by
  refine ⟨fun text p result => isDocument_of_readText strict result, fun d c place before after =>
    ⟨?_, ?_, ?_⟩, ⟨rfl, rfl, rfl⟩, rfl, rfl, rfl, rfl, rfl, rfl, rfl⟩
  -- an object and its list have the same values
  · intro members items lists gap gap' p
    rw [read_eq_ok_iff, read_eq_ok_iff]
    constructor
    · intro written
      obtain ⟨y, object, change⟩ := place.exists_writes Tree.noConfusion written
      refine change _ Tree.noConfusion ((Schema.writes_list_iff gap').mpr ?_)
      exact lists.fills_iff.mp ((Schema.writes_object_iff gap).mp object)
    · intro written
      obtain ⟨y, list, change⟩ := place.exists_writes Tree.noConfusion written
      refine change _ Tree.noConfusion ((Schema.writes_object_iff gap).mpr ?_)
      exact lists.fills_iff.mpr ((Schema.writes_list_iff gap').mp list)
  -- any number of first fields may be given as a list
  · intro gap members p result k few given others
    have written := (read_eq_ok_iff _ _ _ _).mp result
    obtain ⟨y, object, -⟩ := place.exists_writes Tree.noConfusion written
    have fills := (Schema.writes_object_iff gap).mp object
    exact Schema.exists_lists fills.toDistinct few given others
  -- a list of a wrong length has no value
  · intro gap items length
    cases result : read (Tree.document before (c (.list gap items)) after) with
    | error e => exact ⟨e, rfl⟩
    | ok p =>
      have written := (read_eq_ok_iff _ _ _ _).mp result
      obtain ⟨y, list, -⟩ := place.exists_writes Tree.noConfusion written
      exact absurd ((Schema.writes_list_iff gap).mp list) (Schema.not_lines_of_length length)

/-- A plan with nothing but one feeding in its incubation. -/
def aroundFeeding (t : Tree) : Tree :=
  .object .none [.of "incubation" (.object .none
    [.of "feeding_rounds" (.list .none [.of (.list .none [.of t])])])]

theorem place_aroundFeeding : Place Feeding.schema.format schema.format aroundFeeding :=
  .member (s := ⟨"incubation", incubation, IncubationPlan.schema.format⟩)
    (m := .of "incubation" .null) .none [] [] readBy.names (by simp [schema])
    ((isNamed_of_iff _ _ _).mpr rfl) <|
  .member (s := ⟨"feeding_rounds", IncubationPlan.rounds, .list (.list Feeding.schema.format)⟩)
    (m := .of "feeding_rounds" .null) .none [] [] IncubationPlan.readBy.names
    (by simp [IncubationPlan.schema]) ((isNamed_of_iff _ _ _).mpr rfl) <|
  .item .none .none .none [] [] <| .item .none .none .none [] [] .here

theorem lists_feeding : Feeding.schema.Lists
    [.of "nft_id" (.number (.ofNat 3)), .of "account" (.string (Piece.ofText "charlie"))]
    [.of (.string (Piece.ofText "charlie")), .of (.number (.ofNat 3))] where
  keyed := by simp
  once := by simp [Feeding.schema]
  fresh := by simp
  values :=
    .cons ⟨_, .tail _ (.head _), (isNamed_of_iff _ _ _).mpr rfl, rfl⟩ <|
    .cons ⟨_, .head _, (isNamed_of_iff _ _ _).mpr rfl, rfl⟩ .nil
  others := by simp [Feeding.schema]

theorem read_positional_feeding : ∃ p : SalePlan, p.incubation.rounds = [[⟨.charlie, 3⟩]] ∧
    read ("\x7b\"incubation\":\x7b\"feeding_rounds\":" ++
      "[[\x7b\"nft_id\":3,\"account\":\"charlie\"\x7d]]\x7d\x7d") = .ok p ∧
    read "\x7b\"incubation\":\x7b\"feeding_rounds\":[[[\"charlie\",3]]]\x7d\x7d" = .ok p ∧
    ∃ e, read "\x7b\"incubation\":\x7b\"feeding_rounds\":[[[\"charlie\"]]]\x7d\x7d" = .error e := by
  obtain ⟨-, records, -⟩ := read_positional
  obtain ⟨exchange, -, refuses⟩ := records _ _ place_aroundFeeding .none .none
  have object : read ("\x7b\"incubation\":\x7b\"feeding_rounds\":" ++
      "[[\x7b\"nft_id\":3,\"account\":\"charlie\"\x7d]]\x7d\x7d") =
        .ok { incubation := { rounds := [[⟨.charlie, 3⟩]] } } := by rfl
  refine ⟨_, rfl, object, ?_, ?_⟩
  · exact (exchange _ _ lists_feeding .none .none _).mp object
  · exact refuses .none [.of (.string (Piece.ofText "charlie"))] (Or.inr ⟨rfl, by decide⟩)

end SalePlan

end ShellSale
