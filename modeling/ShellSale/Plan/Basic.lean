import ShellSale.Account.Name
import ShellSale.Call.Choice

/-!
# The plan of a sale

Accounts, amounts, choices and ids that the phases of a sale work with. Every part has a default
that suits a local development chain.
-/

namespace ShellSale

/-- A transfer from the root account before the sale. -/
structure Funding where
  account : AccountName
  /-- In whole tokens. -/
  amount : Nat
deriving DecidableEq, Inhabited

/-- A collection to be created, and the id that the chain will give it. -/
structure CollectionPlan where
  metadata : String
  symbol : String
  id : Nat
deriving DecidableEq, Inhabited

/-- The collections of the sale, in the order of their creation. -/
structure Collections where
  spirit : CollectionPlan := ⟨"Phala World Spirits Collection", "PWSPRT", 0⟩
  originOfShell : CollectionPlan := ⟨"Phala World Origin of Shells Collection", "PWOAS", 1⟩
  shell : CollectionPlan := ⟨"Phala World Shells Collection", "PWSHL", 2⟩
deriving DecidableEq, Inhabited

/-- A purchase of a rare Origin of Shell. -/
structure RarePurchase where
  account : AccountName
  rarity : Rarity
  race : Race
  career : Career
deriving DecidableEq, Inhabited

/-- The race and career that an account picks. -/
structure ShellChoice where
  account : AccountName
  race : Race
  career : Career
deriving DecidableEq, Inhabited

/-- How many Origin of Shells of one rarity are released. -/
structure Inventory where
  forSale : Nat
  giveaway : Nat
deriving DecidableEq, Inhabited

/-- The Origin of Shells that an account owns. -/
structure Holding where
  account : AccountName
  nfts : List Nat
deriving DecidableEq, Inhabited

/-- One feeding of an Origin of Shell. -/
structure Feeding where
  account : AccountName
  nft : Nat
deriving DecidableEq, Inhabited

/-- The accounts that take part in a default plan, without the administrator. -/
def AccountName.players : List AccountName :=
  [.alice, .bob, .charlie, .david, .eve, .ferdie]

/-- What the incubation works with. -/
structure IncubationPlan where
  /-- The collection to incubate; the chain knows it if the plan does not. -/
  collection : Option Nat := none
  /-- Accounts whose Origin of Shells are looked up on the chain. -/
  incubators : List AccountName := AccountName.players
  /-- Origin of Shells to incubate instead of those on the chain. -/
  holdings : List Holding := []
  /-- Rounds of feedings. -/
  rounds : List (List Feeding) :=
    [[⟨.alice, 0⟩, ⟨.bob, 0⟩, ⟨.charlie, 1⟩, ⟨.david, 2⟩, ⟨.eve, 3⟩, ⟨.ferdie, 4⟩],
      [⟨.alice, 5⟩, ⟨.bob, 1⟩, ⟨.charlie, 3⟩, ⟨.david, 8⟩, ⟨.eve, 2⟩, ⟨.ferdie, 10⟩]]
  /-- How many seconds earlier the most fed shells hatch, the most fed first. -/
  reductions : List Nat := [10800, 7200, 3600, 2400, 1400, 1400, 1400, 1400, 1400, 1400]
deriving DecidableEq, Inhabited

/-- Everything the phases need besides keys and an endpoint. -/
structure SalePlan where
  initialFunding : List Funding :=
    [.overlord, .bob, .charlie, .david, .eve, .ferdie].map fun a => ⟨a, 20000⟩
  /-- Whether the window for claiming spirits opens with the set-up. -/
  openSpiritClaims : Bool := true
  collections : Collections := {}
  spiritMetadata : String := "ar://Q6N5cKjuLzihuiyVlpU-ANUM5ffKLwYYACKFN4mbNuw"
  originOfShellsMetadata : List (Race × String) :=
    [(.cyborg, "ar://BS-NUyJWDKJ-CwTYLWZz6TpG0CbWVKUAXvdPQu-KimI"),
      (.aiSpectre, "ar://KR3ZIIcc_Q6_47sibLOJ5YoFwJZqT6C7aJkkUYbUWbU"),
      (.pandroid, "ar://BS-NUyJWDKJ-CwTYLWZz6TpG0CbWVKUAXvdPQu-KimI"),
      (.xGene, "ar://IzOXT_pER7487_RBpzGNOKNBGnDouN1mOcPXojE_Das")]
  /-- Whole tokens that every claimant is sent before claiming. -/
  spiritClaimFunding : Nat := 11
  spiritClaimants : List AccountName := AccountName.players
  rarePurchases : List RarePurchase :=
    [⟨.bob, .legendary, .cyborg, .hackerWizard⟩, ⟨.charlie, .magic, .pandroid, .roboWarrior⟩,
      ⟨.david, .magic, .xGene, .tradeNegotiator⟩]
  whitelistPurchases : List ShellChoice :=
    [⟨.alice, .aiSpectre, .hardwareDruid⟩, ⟨.ferdie, .cyborg, .web3Monk⟩,
      ⟨.eve, .xGene, .roboWarrior⟩]
  primeInventory : Inventory := ⟨900, 50⟩
  preorders : List ShellChoice := [⟨.alice, .cyborg, .hackerWizard⟩]
  chosenPreorders : List Nat := [0, 1, 2, 3, 4, 5]
  notChosenPreorders : List Nat := [6, 7, 8, 9, 10]
  lastDayPreorders : List ShellChoice := [⟨.alice, .cyborg, .hackerWizard⟩]
  lastDayChosenPreorders : List Nat := [0, 1, 2, 3, 4, 5]
  lastDayNotChosenPreorders : List Nat := [6, 7, 8, 9, 10]
  incubation : IncubationPlan := {}
deriving DecidableEq, Inhabited

end ShellSale
