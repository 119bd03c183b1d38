import ShellSale.Proofs.Json.Writing
import ShellSale.Proofs.Plan.Formats

/-!
## Which plans can be written

Every plan can be written whose numbers fit their types, with all its fields: texts, lists and
choices can always be written.

* `SalePlan.InRange`: whether the numbers of a plan fit their types.
* `SalePlan.InRange.exists_members` is the main result.
-/

namespace ShellSale

open Json

/-! ### Numbers of a plan -/

/-- Whether the id of a collection fits its type. -/
def CollectionPlan.InRange (c : CollectionPlan) : Prop :=
  c.id < UInt32.size

/-- Whether the numbers of an incubation fit their types. -/
structure IncubationPlan.InRange (i : IncubationPlan) : Prop where
  collection : ∀ id ∈ i.collection, id < UInt32.size
  holdings : ∀ h ∈ i.holdings, ∀ id ∈ h.nfts, id < UInt32.size
  rounds : ∀ round ∈ i.rounds, ∀ f ∈ round, f.nft < UInt32.size
  reductions : ∀ n ∈ i.reductions, n < UInt64.size

/-- Whether the numbers of a plan fit their types. -/
structure SalePlan.InRange (p : SalePlan) : Prop where
  initialFunding : ∀ f ∈ p.initialFunding, f.amount < Reader.bound128
  spirit : p.collections.spirit.InRange
  originOfShell : p.collections.originOfShell.InRange
  shell : p.collections.shell.InRange
  spiritClaimFunding : p.spiritClaimFunding < Reader.bound128
  forSale : p.primeInventory.forSale < UInt32.size
  giveaway : p.primeInventory.giveaway < UInt32.size
  chosen : ∀ id ∈ p.chosenPreorders, id < UInt32.size
  notChosen : ∀ id ∈ p.notChosenPreorders, id < UInt32.size
  lastDayChosen : ∀ id ∈ p.lastDayChosenPreorders, id < UInt32.size
  lastDayNotChosen : ∀ id ∈ p.lastDayNotChosenPreorders, id < UInt32.size
  incubation : p.incubation.InRange

theorem SalePlan.inRange_default : ({} : SalePlan).InRange where
  initialFunding := by decide
  spirit := show 0 < UInt32.size by decide
  originOfShell := show 1 < UInt32.size by decide
  shell := show 2 < UInt32.size by decide
  spiritClaimFunding := by decide
  forSale := by decide
  giveaway := by decide
  chosen := by decide
  notChosen := by decide
  lastDayChosen := by decide
  lastDayNotChosen := by decide
  incubation := {
    collection := by simp
    holdings := by simp
    rounds := by decide
    reductions := by decide }

/-! ### Parts of a plan -/

theorem AccountName.expresses (a : AccountName) : AccountName.format.Expresses a :=
  Format.expresses_choice (List.mem_map_of_mem a.mem_all)

theorem Race.expresses (r : Race) : Race.format.Expresses r :=
  Format.expresses_choice (List.mem_map_of_mem (show r ∈ all by cases r <;> decide))

theorem Career.expresses (c : Career) : Career.format.Expresses c :=
  Format.expresses_choice (List.mem_map_of_mem (show c ∈ all by cases c <;> decide))

theorem Rarity.expresses (r : Rarity) : Rarity.format.Expresses r :=
  Format.expresses_choice (List.mem_map_of_mem (show r ∈ all by cases r <;> decide))

theorem expresses_ids {ids : List Nat} (h : ∀ id ∈ ids, id < UInt32.size) :
    Format.word32.list.Expresses ids :=
  Format.expresses_list fun id mem => Format.expresses_natural (h id mem)

theorem Funding.expresses {f : Funding} (h : f.amount < Reader.bound128) :
    Funding.schema.format.Expresses f :=
  Schema.expresses readBy.names <| by
    simpa [schema] using ⟨f.account.expresses, Format.expresses_natural h⟩

theorem CollectionPlan.expresses {c : CollectionPlan} (h : c.InRange) :
    CollectionPlan.schema.format.Expresses c :=
  Schema.expresses readBy.names <| by
    simpa [schema] using ⟨Format.expresses_text c.metadata, Format.expresses_text c.symbol,
      Format.expresses_natural h⟩

theorem RarePurchase.expresses (p : RarePurchase) : RarePurchase.schema.format.Expresses p :=
  Schema.expresses readBy.names <| by
    simpa [schema] using ⟨p.account.expresses, p.rarity.expresses, p.race.expresses,
      p.career.expresses⟩

theorem ShellChoice.expresses (c : ShellChoice) : ShellChoice.schema.format.Expresses c :=
  Schema.expresses readBy.names <| by
    simpa [schema] using ⟨c.account.expresses, c.race.expresses, c.career.expresses⟩

theorem Inventory.expresses {i : Inventory} (forSale : i.forSale < UInt32.size)
    (giveaway : i.giveaway < UInt32.size) : Inventory.schema.format.Expresses i :=
  Schema.expresses readBy.names <| by
    simpa [schema] using ⟨Format.expresses_natural forSale, Format.expresses_natural giveaway⟩

theorem Holding.expresses {h : Holding} (ids : ∀ id ∈ h.nfts, id < UInt32.size) :
    Holding.schema.format.Expresses h :=
  Schema.expresses readBy.names <| by
    simpa [schema] using ⟨h.account.expresses, expresses_ids ids⟩

theorem Feeding.expresses {f : Feeding} (h : f.nft < UInt32.size) :
    Feeding.schema.format.Expresses f :=
  Schema.expresses readBy.names <| by
    simpa [schema] using ⟨f.account.expresses, Format.expresses_natural h⟩

theorem IncubationPlan.expresses {i : IncubationPlan} (h : i.InRange) :
    IncubationPlan.schema.format.Expresses i := by
  have incubators : AccountName.format.list.Expresses i.incubators :=
    Format.expresses_list fun a _ => a.expresses
  have holdings : Holding.schema.format.list.Expresses i.holdings :=
    Format.expresses_list fun o mem => Holding.expresses (h.holdings o mem)
  have rounds : Feeding.schema.format.list.list.Expresses i.rounds :=
    Format.expresses_list fun round mem =>
      Format.expresses_list fun f mem' => Feeding.expresses (h.rounds round mem f mem')
  have reductions : Format.word64.list.Expresses i.reductions :=
    Format.expresses_list fun n mem => Format.expresses_natural (h.reductions n mem)
  apply Schema.expresses readBy.names
  simpa [schema] using
    ⟨Format.expresses_optional_natural h.collection, incubators, holdings, rounds, reductions⟩

/-! ### Plans -/

/-- **Every plan can be written** whose numbers fit their types, with all its fields. -/
theorem SalePlan.InRange.exists_members {p : SalePlan} (h : p.InRange) :
    ∃ members, SalePlan.schema.Fills [] {} p members ∧
      ∀ s ∈ SalePlan.schema.slots, ∃ m ∈ members, m.IsNamed s.name := by
  have funding : Funding.schema.format.list.Expresses p.initialFunding :=
    Format.expresses_list fun f mem => Funding.expresses (h.initialFunding f mem)
  have collections : Collections.schema.format.Expresses p.collections := by
    apply Schema.expresses Collections.readBy.names
    simpa [Collections.schema] using ⟨CollectionPlan.expresses h.spirit,
      CollectionPlan.expresses h.originOfShell, CollectionPlan.expresses h.shell⟩
  have metadata : (Race.format.pair .text).list.Expresses p.originOfShellsMetadata :=
    Format.expresses_list fun m _ => Format.expresses_pair m.1.expresses (Format.expresses_text m.2)
  have claimants : AccountName.format.list.Expresses p.spiritClaimants :=
    Format.expresses_list fun a _ => a.expresses
  have purchases : RarePurchase.schema.format.list.Expresses p.rarePurchases :=
    Format.expresses_list fun purchase _ => purchase.expresses
  have choices (picks : List ShellChoice) : ShellChoice.schema.format.list.Expresses picks :=
    Format.expresses_list fun pick _ => pick.expresses
  apply Schema.exists_members SalePlan.readBy.names
  simpa [SalePlan.schema] using ⟨funding, Format.expresses_flag _, collections,
    Format.expresses_text _, metadata, Format.expresses_natural h.spiritClaimFunding, claimants,
    purchases, choices _, Inventory.expresses h.forSale h.giveaway, choices _,
    expresses_ids h.chosen, expresses_ids h.notChosen, choices _, expresses_ids h.lastDayChosen,
    expresses_ids h.lastDayNotChosen, IncubationPlan.expresses h.incubation⟩

end ShellSale
