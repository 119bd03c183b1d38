import ShellSale.Json.Record
import ShellSale.Plan.Basic

/-!
# Reading plans

The written form of a plan. A plan, its collections and its incubation may leave out fields, which
then have their defaults; every other record has to be complete.
-/

namespace ShellSale

open Json

/-- An account is written by its name. -/
def AccountName.reader : Reader AccountName :=
  .choice (AccountName.all.map fun a => (a.text, a))

/-- A race is written by its name. -/
def Race.reader : Reader Race :=
  .choice (Race.all.map fun r => (r.text, r))

/-- A career is written by its name. -/
def Career.reader : Reader Career :=
  .choice (Career.all.map fun c => (c.text, c))

/-- A rarity is written by its name. -/
def Rarity.reader : Reader Rarity :=
  .choice (Rarity.all.map fun r => (r.text, r))

/-- The written form of a transfer. -/
def Funding.layout : Layout Funding where
  name := "Funding"
  fields := [
    .of "account" AccountName.reader fun x f => { f with account := x },
    .of "amount" .word128 fun x f => { f with amount := x }]
  start := default
  complete := true

/-- The written form of a collection. -/
def CollectionPlan.layout : Layout CollectionPlan where
  name := "CollectionPlan"
  fields := [
    .of "metadata" .text fun x c => { c with metadata := x },
    .of "symbol" .text fun x c => { c with symbol := x },
    .of "id" .word32 fun x c => { c with id := x }]
  start := default
  complete := true

/-- The written form of the collections. -/
def Collections.layout : Layout Collections where
  name := "Collections"
  fields := [
    .of "spirit" CollectionPlan.layout.reader fun x c => { c with spirit := x },
    .of "origin_of_shell" CollectionPlan.layout.reader fun x c => { c with originOfShell := x },
    .of "shell" CollectionPlan.layout.reader fun x c => { c with shell := x }]
  start := {}
  complete := false

/-- The written form of a rare purchase. -/
def RarePurchase.layout : Layout RarePurchase where
  name := "RarePurchase"
  fields := [
    .of "account" AccountName.reader fun x p => { p with account := x },
    .of "rarity" Rarity.reader fun x p => { p with rarity := x },
    .of "race" Race.reader fun x p => { p with race := x },
    .of "career" Career.reader fun x p => { p with career := x }]
  start := default
  complete := true

/-- The written form of a choice. -/
def ShellChoice.layout : Layout ShellChoice where
  name := "ShellChoice"
  fields := [
    .of "account" AccountName.reader fun x c => { c with account := x },
    .of "race" Race.reader fun x c => { c with race := x },
    .of "career" Career.reader fun x c => { c with career := x }]
  start := default
  complete := true

/-- The written form of an inventory. -/
def Inventory.layout : Layout Inventory where
  name := "RarityCounts"
  fields := [
    .of "for_sale" .word32 fun x i => { i with forSale := x },
    .of "giveaway" .word32 fun x i => { i with giveaway := x }]
  start := default
  complete := true

/-- The written form of a holding. -/
def Holding.layout : Layout Holding where
  name := "ShellOwner"
  fields := [
    .of "account" AccountName.reader fun x h => { h with account := x },
    .of "nft_ids" (.list .word32) fun x h => { h with nfts := x }]
  start := default
  complete := true

/-- The written form of a feeding. -/
def Feeding.layout : Layout Feeding where
  name := "Feed"
  fields := [
    .of "account" AccountName.reader fun x f => { f with account := x },
    .of "nft_id" .word32 fun x f => { f with nft := x }]
  start := default
  complete := true

/-- The written form of the inputs of the incubation. -/
def IncubationPlan.layout : Layout IncubationPlan where
  name := "IncubationPlan"
  fields := [
    .of "collection_id" (.optional .word32) fun x p => { p with collection := x },
    .of "incubators" (.list AccountName.reader) fun x p => { p with incubators := x },
    .of "owners" (.list Holding.layout.reader) fun x p => { p with holdings := x },
    .of "feeding_rounds" (.list (.list Feeding.layout.reader)) fun x p => { p with rounds := x },
    .of "hatch_time_reductions" (.list .word64) fun x p => { p with reductions := x }]
  start := {}
  complete := false

/-- The written form of a plan. -/
def SalePlan.layout : Layout SalePlan where
  name := "SalePlan"
  fields := [
    .of "initial_funding" (.list Funding.layout.reader) fun x p => { p with initialFunding := x },
    .of "open_spirit_claims" .flag fun x p => { p with openSpiritClaims := x },
    .of "collections" Collections.layout.reader fun x p => { p with collections := x },
    .of "spirit_metadata" .text fun x p => { p with spiritMetadata := x },
    .of "origin_of_shells_metadata" (.list (.pair Race.reader .text))
      fun x p => { p with originOfShellsMetadata := x },
    .of "spirit_claim_funding" .word128 fun x p => { p with spiritClaimFunding := x },
    .of "spirit_claimants" (.list AccountName.reader) fun x p => { p with spiritClaimants := x },
    .of "rare_purchases" (.list RarePurchase.layout.reader)
      fun x p => { p with rarePurchases := x },
    .of "whitelist_purchases" (.list ShellChoice.layout.reader)
      fun x p => { p with whitelistPurchases := x },
    .of "prime_inventory" Inventory.layout.reader fun x p => { p with primeInventory := x },
    .of "preorders" (.list ShellChoice.layout.reader) fun x p => { p with preorders := x },
    .of "chosen_preorders" (.list .word32) fun x p => { p with chosenPreorders := x },
    .of "not_chosen_preorders" (.list .word32) fun x p => { p with notChosenPreorders := x },
    .of "last_day_preorders" (.list ShellChoice.layout.reader)
      fun x p => { p with lastDayPreorders := x },
    .of "last_day_chosen_preorders" (.list .word32)
      fun x p => { p with lastDayChosenPreorders := x },
    .of "last_day_not_chosen_preorders" (.list .word32)
      fun x p => { p with lastDayNotChosenPreorders := x },
    .of "incubation" IncubationPlan.layout.reader fun x p => { p with incubation := x }]
  start := {}
  complete := false

/-- Reads a plan. -/
def SalePlan.read (text : String) : Except ReadError SalePlan :=
  readText SalePlan.layout.reader text

/-- What a plan file holds, as far as a program can tell. -/
inductive PlanFile where
  | absent
  | directory
  | bytes (content : List UInt8)

/-- Why a plan file gives no plan. -/
inductive PlanError where
  | unreadable (path cause : String)
  | invalid (path : String) (error : ReadError)

namespace PlanError

/-- What went wrong, and what caused it. -/
def parts : PlanError → List String
  | unreadable path cause => ["could not read sale plan " ++ path, cause]
  | invalid path error => ["invalid sale plan " ++ path, error.message]

/-- The error in words. -/
def message (e : PlanError) : String :=
  ": ".intercalate e.parts

end PlanError

/-- The plan in a file. -/
def SalePlan.load (path : String) : PlanFile → Except PlanError SalePlan
  | .absent => .error (.unreadable path "No such file or directory (os error 2)")
  | .directory => .error (.unreadable path "Is a directory (os error 21)")
  | .bytes content =>
    match String.fromUTF8? ⟨content.toArray⟩ with
    | none => .error (.unreadable path "stream did not contain valid UTF-8")
    | some text =>
      match SalePlan.read text with
      | .ok plan => .ok plan
      | .error e => .error (.invalid path e)

end ShellSale
