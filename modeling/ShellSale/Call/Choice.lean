/-!
# Choices of the runtime

Enumerations that the sale shares with the runtime. A value is known by the name of its variant.
-/

namespace ShellSale

/-- The race of an Origin of Shell. -/
inductive Race where
  | cyborg | aiSpectre | xGene | pandroid
deriving DecidableEq, Inhabited

/-- The career of an Origin of Shell. -/
inductive Career where
  | hardwareDruid | roboWarrior | tradeNegotiator | hackerWizard | web3Monk
deriving DecidableEq, Inhabited

/-- The rarity of an Origin of Shell. -/
inductive Rarity where
  | prime | magic | legendary
deriving DecidableEq, Inhabited

/-- A switch of the sale that the overlord sets. -/
inductive Switch where
  | claimSpirits
  | purchaseRareOriginOfShells
  | purchasePrimeOriginOfShells
  | preorderOriginOfShells
  | lastDayOfSale
deriving DecidableEq, Inhabited

namespace Race

/-- All races, in order. -/
def all : List Race := [cyborg, aiSpectre, xGene, pandroid]

/-- The name of the variant. -/
def text : Race → String
  | cyborg => "Cyborg"
  | aiSpectre => "AISpectre"
  | xGene => "XGene"
  | pandroid => "Pandroid"

/-- The race with a name. -/
def ofText? (name : String) : Option Race :=
  all.find? fun r => r.text == name

theorem ofText?_text (r : Race) : ofText? r.text = some r := by
  cases r <;> decide

end Race

namespace Career

/-- All careers, in order. -/
def all : List Career := [hardwareDruid, roboWarrior, tradeNegotiator, hackerWizard, web3Monk]

/-- The name of the variant. -/
def text : Career → String
  | hardwareDruid => "HardwareDruid"
  | roboWarrior => "RoboWarrior"
  | tradeNegotiator => "TradeNegotiator"
  | hackerWizard => "HackerWizard"
  | web3Monk => "Web3Monk"

/-- The career with a name. -/
def ofText? (name : String) : Option Career :=
  all.find? fun c => c.text == name

theorem ofText?_text (c : Career) : ofText? c.text = some c := by
  cases c <;> decide

end Career

namespace Rarity

/-- All rarities, in order. -/
def all : List Rarity := [prime, magic, legendary]

/-- The name of the variant. -/
def text : Rarity → String
  | prime => "Prime"
  | magic => "Magic"
  | legendary => "Legendary"

/-- The rarity with a name. -/
def ofText? (name : String) : Option Rarity :=
  all.find? fun r => r.text == name

theorem ofText?_text (r : Rarity) : ofText? r.text = some r := by
  cases r <;> decide

end Rarity

namespace Switch

/-- All switches, in order. -/
def all : List Switch :=
  [claimSpirits, purchaseRareOriginOfShells, purchasePrimeOriginOfShells, preorderOriginOfShells,
    lastDayOfSale]

/-- The name of the variant. -/
def text : Switch → String
  | claimSpirits => "ClaimSpirits"
  | purchaseRareOriginOfShells => "PurchaseRareOriginOfShells"
  | purchasePrimeOriginOfShells => "PurchasePrimeOriginOfShells"
  | preorderOriginOfShells => "PreorderOriginOfShells"
  | lastDayOfSale => "LastDayOfSale"

/-- The switch with a name. -/
def ofText? (name : String) : Option Switch :=
  all.find? fun s => s.text == name

end Switch

end ShellSale
