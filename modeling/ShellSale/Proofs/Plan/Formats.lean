import ShellSale.Plan.Reader
import ShellSale.Proofs.Json.Records

/-!
## How plans are written

The schemas of a plan and its parts: for every field its name and how its values are written. The
layouts that plans are read by read just what the schemas say.

* `SalePlan.readBy`: the reader of plans reads the format of plans.
* `SalePlan.read_eq_ok_iff`: what is read of a text that is a JSON value between blanks.
-/

namespace ShellSale

open Json

/-! ### Names -/

/-- An account is written by its name. -/
def AccountName.format : Format AccountName :=
  .choice (all.map fun a => (a.text, a))

/-- A race is written by its name. -/
def Race.format : Format Race :=
  .choice (all.map fun r => (r.text, r))

/-- A career is written by its name. -/
def Career.format : Format Career :=
  .choice (all.map fun c => (c.text, c))

/-- A rarity is written by its name. -/
def Rarity.format : Format Rarity :=
  .choice (all.map fun r => (r.text, r))

theorem AccountName.readBy : AccountName.format.ReadBy AccountName.reader :=
  Format.readBy_choice (by decide)

theorem Race.readBy : Race.format.ReadBy Race.reader :=
  Format.readBy_choice (by decide)

theorem Career.readBy : Career.format.ReadBy Career.reader :=
  Format.readBy_choice (by decide)

theorem Rarity.readBy : Rarity.format.ReadBy Rarity.reader :=
  Format.readBy_choice (by decide)

/-! ### Records that have to be complete -/

/-- How a transfer is written. -/
def Funding.schema : Schema Funding where
  title := "Funding"
  slots := [
    ⟨"account", Funding.account, AccountName.format⟩,
    ⟨"amount", Funding.amount, .word128⟩]
  start := default
  complete := true

/-- How a collection is written. -/
def CollectionPlan.schema : Schema CollectionPlan where
  title := "CollectionPlan"
  slots := [
    ⟨"metadata", CollectionPlan.metadata, .text⟩,
    ⟨"symbol", CollectionPlan.symbol, .text⟩,
    ⟨"id", CollectionPlan.id, .word32⟩]
  start := default
  complete := true

/-- How a rare purchase is written. -/
def RarePurchase.schema : Schema RarePurchase where
  title := "RarePurchase"
  slots := [
    ⟨"account", RarePurchase.account, AccountName.format⟩,
    ⟨"rarity", RarePurchase.rarity, Rarity.format⟩,
    ⟨"race", RarePurchase.race, Race.format⟩,
    ⟨"career", RarePurchase.career, Career.format⟩]
  start := default
  complete := true

/-- How a choice is written. -/
def ShellChoice.schema : Schema ShellChoice where
  title := "ShellChoice"
  slots := [
    ⟨"account", ShellChoice.account, AccountName.format⟩,
    ⟨"race", ShellChoice.race, Race.format⟩,
    ⟨"career", ShellChoice.career, Career.format⟩]
  start := default
  complete := true

/-- How an inventory is written. -/
def Inventory.schema : Schema Inventory where
  title := "RarityCounts"
  slots := [
    ⟨"for_sale", Inventory.forSale, .word32⟩,
    ⟨"giveaway", Inventory.giveaway, .word32⟩]
  start := default
  complete := true

/-- How a holding is written. -/
def Holding.schema : Schema Holding where
  title := "ShellOwner"
  slots := [
    ⟨"account", Holding.account, AccountName.format⟩,
    ⟨"nft_ids", Holding.nfts, .list .word32⟩]
  start := default
  complete := true

/-- How a feeding is written. -/
def Feeding.schema : Schema Feeding where
  title := "Feed"
  slots := [
    ⟨"account", Feeding.account, AccountName.format⟩,
    ⟨"nft_id", Feeding.nft, .word32⟩]
  start := default
  complete := true

theorem Funding.readBy : Funding.schema.ReadBy Funding.layout where
  start := rfl
  complete := rfl
  fields := by
    refine .cons (.of AccountName.readBy ?_) <| .cons (.of Format.readBy_word128 ?_) .nil
    all_goals
      intro v x
      simp [Funding.schema]
  names := by decide
  ext := by
    rintro ⟨⟩ ⟨⟩
    simp [Funding.schema]

theorem CollectionPlan.readBy : CollectionPlan.schema.ReadBy CollectionPlan.layout where
  start := rfl
  complete := rfl
  fields := by
    refine .cons (.of Format.readBy_text ?_) <| .cons (.of Format.readBy_text ?_) <|
      .cons (.of Format.readBy_word32 ?_) .nil
    all_goals
      intro v x
      simp [CollectionPlan.schema]
  names := by decide
  ext := by
    rintro ⟨⟩ ⟨⟩
    simp [CollectionPlan.schema]

theorem RarePurchase.readBy : RarePurchase.schema.ReadBy RarePurchase.layout where
  start := rfl
  complete := rfl
  fields := by
    refine .cons (.of AccountName.readBy ?_) <| .cons (.of Rarity.readBy ?_) <|
      .cons (.of Race.readBy ?_) <| .cons (.of Career.readBy ?_) .nil
    all_goals
      intro v x
      simp [RarePurchase.schema]
  names := by decide
  ext := by
    rintro ⟨⟩ ⟨⟩
    simp [RarePurchase.schema]

theorem ShellChoice.readBy : ShellChoice.schema.ReadBy ShellChoice.layout where
  start := rfl
  complete := rfl
  fields := by
    refine .cons (.of AccountName.readBy ?_) <| .cons (.of Race.readBy ?_) <|
      .cons (.of Career.readBy ?_) .nil
    all_goals
      intro v x
      simp [ShellChoice.schema]
  names := by decide
  ext := by
    rintro ⟨⟩ ⟨⟩
    simp [ShellChoice.schema]

theorem Inventory.readBy : Inventory.schema.ReadBy Inventory.layout where
  start := rfl
  complete := rfl
  fields := by
    refine .cons (.of Format.readBy_word32 ?_) <| .cons (.of Format.readBy_word32 ?_) .nil
    all_goals
      intro v x
      simp [Inventory.schema]
  names := by decide
  ext := by
    rintro ⟨⟩ ⟨⟩
    simp [Inventory.schema]

theorem Holding.readBy : Holding.schema.ReadBy Holding.layout where
  start := rfl
  complete := rfl
  fields := by
    refine .cons (.of AccountName.readBy ?_) <|
      .cons (.of (Format.readBy_list Format.readBy_word32) ?_) .nil
    all_goals
      intro v x
      simp [Holding.schema]
  names := by decide
  ext := by
    rintro ⟨⟩ ⟨⟩
    simp [Holding.schema]

theorem Feeding.readBy : Feeding.schema.ReadBy Feeding.layout where
  start := rfl
  complete := rfl
  fields := by
    refine .cons (.of AccountName.readBy ?_) <| .cons (.of Format.readBy_word32 ?_) .nil
    all_goals
      intro v x
      simp [Feeding.schema]
  names := by decide
  ext := by
    rintro ⟨⟩ ⟨⟩
    simp [Feeding.schema]

/-! ### Records with defaults -/

/-- How the collections are written. -/
def Collections.schema : Schema Collections where
  title := "Collections"
  slots := [
    ⟨"spirit", Collections.spirit, CollectionPlan.schema.format⟩,
    ⟨"origin_of_shell", Collections.originOfShell, CollectionPlan.schema.format⟩,
    ⟨"shell", Collections.shell, CollectionPlan.schema.format⟩]
  start := {}
  complete := false

/-- How the inputs of the incubation are written. -/
def IncubationPlan.schema : Schema IncubationPlan where
  title := "IncubationPlan"
  slots := [
    ⟨"collection_id", IncubationPlan.collection, .optional .word32⟩,
    ⟨"incubators", IncubationPlan.incubators, .list AccountName.format⟩,
    ⟨"owners", IncubationPlan.holdings, .list Holding.schema.format⟩,
    ⟨"feeding_rounds", IncubationPlan.rounds, .list (.list Feeding.schema.format)⟩,
    ⟨"hatch_time_reductions", IncubationPlan.reductions, .list .word64⟩]
  start := {}
  complete := false

/-- How a plan is written. -/
def SalePlan.schema : Schema SalePlan where
  title := "SalePlan"
  slots := [
    ⟨"initial_funding", SalePlan.initialFunding, .list Funding.schema.format⟩,
    ⟨"open_spirit_claims", SalePlan.openSpiritClaims, .flag⟩,
    ⟨"collections", SalePlan.collections, Collections.schema.format⟩,
    ⟨"spirit_metadata", SalePlan.spiritMetadata, .text⟩,
    ⟨"origin_of_shells_metadata", SalePlan.originOfShellsMetadata,
      .list (.pair Race.format .text)⟩,
    ⟨"spirit_claim_funding", SalePlan.spiritClaimFunding, .word128⟩,
    ⟨"spirit_claimants", SalePlan.spiritClaimants, .list AccountName.format⟩,
    ⟨"rare_purchases", SalePlan.rarePurchases, .list RarePurchase.schema.format⟩,
    ⟨"whitelist_purchases", SalePlan.whitelistPurchases, .list ShellChoice.schema.format⟩,
    ⟨"prime_inventory", SalePlan.primeInventory, Inventory.schema.format⟩,
    ⟨"preorders", SalePlan.preorders, .list ShellChoice.schema.format⟩,
    ⟨"chosen_preorders", SalePlan.chosenPreorders, .list .word32⟩,
    ⟨"not_chosen_preorders", SalePlan.notChosenPreorders, .list .word32⟩,
    ⟨"last_day_preorders", SalePlan.lastDayPreorders, .list ShellChoice.schema.format⟩,
    ⟨"last_day_chosen_preorders", SalePlan.lastDayChosenPreorders, .list .word32⟩,
    ⟨"last_day_not_chosen_preorders", SalePlan.lastDayNotChosenPreorders, .list .word32⟩,
    ⟨"incubation", SalePlan.incubation, IncubationPlan.schema.format⟩]
  start := {}
  complete := false

theorem Collections.readBy : Collections.schema.ReadBy Collections.layout where
  start := rfl
  complete := rfl
  fields := by
    have collection := CollectionPlan.readBy.format
    refine .cons (.of collection ?_) <| .cons (.of collection ?_) <|
      .cons (.of collection ?_) .nil
    all_goals
      intro v x
      simp [Collections.schema]
  names := by decide
  ext := by
    rintro ⟨⟩ ⟨⟩
    simp [Collections.schema]

theorem IncubationPlan.readBy : IncubationPlan.schema.ReadBy IncubationPlan.layout where
  start := rfl
  complete := rfl
  fields := by
    have holdings := Format.readBy_list Holding.readBy.format
    have rounds := Format.readBy_list (Format.readBy_list Feeding.readBy.format)
    refine .cons (.of (Format.readBy_optional Format.readBy_word32) ?_) <|
      .cons (.of (Format.readBy_list AccountName.readBy) ?_) <|
      .cons (.of holdings ?_) <| .cons (.of rounds ?_) <|
      .cons (.of (Format.readBy_list Format.readBy_word64) ?_) .nil
    all_goals
      intro v x
      simp [IncubationPlan.schema]
  names := by decide
  ext := by
    rintro ⟨⟩ ⟨⟩
    simp [IncubationPlan.schema]

theorem SalePlan.readBy : SalePlan.schema.ReadBy SalePlan.layout where
  start := rfl
  complete := rfl
  fields := by
    have choices := Format.readBy_list ShellChoice.readBy.format
    have ids := Format.readBy_list Format.readBy_word32
    have metadata := Format.readBy_list (Format.readBy_pair Race.readBy Format.readBy_text)
    refine .cons (.of (Format.readBy_list Funding.readBy.format) ?_) <|
      .cons (.of Format.readBy_flag ?_) <|
      .cons (.of Collections.readBy.format ?_) <|
      .cons (.of Format.readBy_text ?_) <|
      .cons (.of metadata ?_) <|
      .cons (.of Format.readBy_word128 ?_) <|
      .cons (.of (Format.readBy_list AccountName.readBy) ?_) <|
      .cons (.of (Format.readBy_list RarePurchase.readBy.format) ?_) <|
      .cons (.of choices ?_) <|
      .cons (.of Inventory.readBy.format ?_) <|
      .cons (.of choices ?_) <| .cons (.of ids ?_) <|
      .cons (.of ids ?_) <| .cons (.of choices ?_) <|
      .cons (.of ids ?_) <| .cons (.of ids ?_) <|
      .cons (.of IncubationPlan.readBy.format ?_) .nil
    all_goals
      intro v x
      simp [SalePlan.schema]
  names := by decide
  ext := by
    rintro ⟨⟩ ⟨⟩
    simp [SalePlan.schema]

/-! ### Texts -/

/-- **Reading a plan** from a text that is a JSON value between blanks gives what the value
writes. -/
theorem SalePlan.read_eq_ok_iff (before : Blanks) (t : Tree) (after : Blanks) (p : SalePlan) :
    SalePlan.read (t.document before after) = .ok p ↔ SalePlan.schema.format.writes p t :=
  readText_iff SalePlan.readBy.format before t after p

/-- A value with a fault in a place that a plan looks at is refused. -/
theorem SalePlan.exists_read_eq_error {fault : Fault} {t : Tree}
    (spoiled : SalePlan.schema.format.spoils fault t) (before after : Blanks) :
    ∃ e, SalePlan.read (t.document before after) = .error e := by
  cases result : SalePlan.read (t.document before after) with
  | error e => exact ⟨e, rfl⟩
  | ok p =>
    have written := (SalePlan.read_eq_ok_iff before t after p).mp result
    exact absurd written (SalePlan.schema.format.unwritten spoiled p)

end ShellSale
