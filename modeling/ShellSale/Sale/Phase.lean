import ShellSale.Plan.Basic
import ShellSale.Sale.Ranking
import ShellSale.Sale.Step

/-!
# Phases of the sale

A phase is a tree of what to do next: steps to take, one after the other, and questions to the
chain whose answers decide how it goes on. `Phase.run` takes the steps; a step that does not
succeed ends the phase.
-/

namespace ShellSale

/-- What is left to do of a phase. -/
inductive Phase where
  | done
  | fail (e : PhaseError)
  | overflow (o : Overflow)
  /-- An administrative step. -/
  | admin (step : String) (signer : AccountName) (mode : Mode) (calls : List Call) (next : Phase)
  /-- A step of the users. -/
  | users (step : String) (calls : List (AccountName × Call)) (next : Phase)
  | say (text : String) (next : Phase)
  | askCollection (next : Option Nat → Phase)
  | askEra (next : Nat → Phase)
  | askOwned (owner : AccountName) (collection : Nat) (next : List Nat → Phase)
  | askFood (era : Nat) (next : FeedCounts → Phase)

namespace Phase

variable {σ : Type}

/-- Goes on with an answer of the chain, unless there is none. -/
def onAnswer {α : Type} (w : World σ Call) (answer : Except ChainStateError α)
    (next : α → Except Halt Unit × World σ Call) : Except Halt Unit × World σ Call :=
  match answer with
  | .ok x => next x
  | .error e => (.error (.error (.chainState e)), w)

/-- Takes the steps of a phase. -/
def run (sale : Sale σ) (w : World σ Call) : Phase → Except Halt Unit × World σ Call
  | done => (.ok (), w)
  | fail e => (.error (.error e), w)
  | overflow o => (.error (.overflow o), w)
  | admin step signer mode calls next =>
    match sale.admin w step (sale.keyring.account signer) mode calls with
    | (.error halt, w) => (.error halt, w)
    | (.ok (), w) => run sale w next
  | users step calls next =>
    match sale.users w step .pipelined calls with
    | (.error halt, w) => (.error halt, w)
    | (.ok _, w) => run sale w next
  | say text next => run sale (Sale.say w .info text) next
  | askCollection next =>
    onAnswer w (ChainState.collection sale.storage w.node w.now) fun x => run sale w (next x)
  | askEra next =>
    onAnswer w (ChainState.era sale.storage w.node w.now) fun x => run sale w (next x)
  | askOwned owner collection next =>
    onAnswer w
      (ChainState.owned sale.storage w.node w.now (sale.keyring.account owner) collection)
      fun x => run sale w (next x)
  | askFood era next =>
    onAnswer w (ChainState.food sale.storage w.node w.now era) fun x => run sale w (next x)

/-! ### Steps that several phases share -/

/-- An administrative step of the overlord with one call. -/
def decree (step : String) (call : Call) (next : Phase) : Phase :=
  admin step .overlord .sequential [call] next

/-- Sets a switch of the sale. -/
def setSwitch (enabled : Bool) (switch : Switch) (next : Phase) : Phase :=
  decree ("Set " ++ switch.text ++ " status to " ++ toString enabled)
    (.setStatusType enabled switch) next

/-- Transfers of whole tokens, unless an amount takes more than 128 bits. -/
def transfers? (k : Keyring) (amounts : List (AccountName × Nat)) : Option (List Call) :=
  amounts.mapM fun (name, amount) => (tokens? amount).map fun units =>
    .transfer (k.account name) units

/-- An administrative step that transfers whole tokens. -/
def fund (k : Keyring) (step : String) (signer : AccountName) (amounts : List (AccountName × Nat))
    (next : Phase) : Phase :=
  match transfers? k amounts with
  | some calls => admin step signer .pipelined calls next
  | none => overflow .multiplication

/-! ### Setting up -/

/-- The calls that create the collections. The chain gives out ids in the order of creation, so the
id of each is set right after it. -/
def collectionCalls (c : Collections) : List Call :=
  [.createCollection c.spirit.metadata c.spirit.symbol, .setSpiritCollectionId c.spirit.id,
    .createCollection c.originOfShell.metadata c.originOfShell.symbol,
    .setOriginOfShellCollectionId c.originOfShell.id,
    .createCollection c.shell.metadata c.shell.symbol, .setShellCollectionId c.shell.id]

/-- Funds the accounts, installs the overlord, and sets up collections and inventory. -/
def init (k : Keyring) (p : SalePlan) : Phase :=
  let opened := if p.openSpiritClaims then setSwitch true .claimSpirits done else done
  let configured :=
    admin "Set new overlord" .alice .sequential [.asRoot (.setOverlord (k.account .overlord))] <|
    decree "Initialize Phala World clock" .initializeWorldClock <|
    admin "Create Spirit, Origin of Shell and Shell collections" .overlord .pipelined
      (collectionCalls p.collections) <|
    decree "Initialize Origin of Shell sale inventory" .initRarityTypeCounts opened
  if p.initialFunding.isEmpty then configured
  else
    fund k "Fund sale accounts" .alice (p.initialFunding.map fun f => (f.account, f.amount))
      configured

/-! ### Claims and purchases -/

/-- Opens the claims, funds the claimants and has each of them claim a spirit. -/
def spiritClaim (k : Keyring) (p : SalePlan) : Phase :=
  decree "Add spirit metadata" (.setSpiritsMetadata p.spiritMetadata) <|
  setSwitch true .claimSpirits <|
  if p.spiritClaimants.isEmpty then done
  else
    fund k "Fund spirit claimants" .overlord
      (p.spiritClaimants.map fun name => (name, p.spiritClaimFunding)) <|
    users "Claim spirit" (p.spiritClaimants.map fun name => (name, .claimSpirit)) done

/-- Publishes the metadata of the races, opens rare purchases and makes those of the plan. -/
def rarePurchase (p : SalePlan) : Phase :=
  decree "Add Origin of Shell metadata" (.setOriginOfShellsMetadata p.originOfShellsMetadata) <|
  setSwitch true .purchaseRareOriginOfShells <|
  users "Buy rare Origin of Shell"
    (p.rarePurchases.map fun r => (r.account, .buyRareOriginOfShell r.rarity r.race r.career)) done

/-- Opens prime purchases and has every account that the plan whitelists buy with a ticket. -/
def whitelistPurchase (k : Keyring) (p : SalePlan) : Phase :=
  setSwitch true .purchasePrimeOriginOfShells <|
  users "Buy whitelisted prime Origin of Shell"
    (p.whitelistPurchases.map fun c =>
      (c.account, .buyPrimeOriginOfShell
        (whitelistTicket (k.account .overlord) (k.account c.account)) c.race c.career)) done

/-! ### Preorders -/

/-- Has accounts preorder. -/
def placePreorders (step : String) (preorders : List ShellChoice) (next : Phase) : Phase :=
  users step (preorders.map fun c => (c.account, .preorderOriginOfShell c.race c.career)) next

/-- Mints the chosen preorders, then refunds the others. -/
def settlePreorders (chosen notChosen : List Nat) (next : Phase) : Phase :=
  let refund :=
    if notChosen.isEmpty then next
    else decree "Refund not chosen preorders" (.refundNotChosenPreorders notChosen) next
  if chosen.isEmpty then refund
  else decree "Mint chosen preorders" (.mintChosenPreorders chosen) refund

/-- Closes prime purchases, releases the prime inventory and opens preorders. -/
def preorder (p : SalePlan) : Phase :=
  setSwitch false .purchasePrimeOriginOfShells <|
  decree "Update prime Origin of Shell inventory"
    (.updateRarityTypeCounts .prime p.primeInventory.forSale p.primeInventory.giveaway) <|
  setSwitch true .preorderOriginOfShells <|
  placePreorders "Preorder Origin of Shell" p.preorders done

/-- Settles the preorders, then runs the last day of the sale and settles it too. -/
def lastDay (p : SalePlan) : Phase :=
  setSwitch false .preorderOriginOfShells <|
  settlePreorders p.chosenPreorders p.notChosenPreorders <|
  setSwitch true .lastDayOfSale <|
  placePreorders "Last day preorder Origin of Shell" p.lastDayPreorders <|
  settlePreorders p.lastDayChosenPreorders p.lastDayNotChosenPreorders done

/-! ### Incubation -/

/-- Tells the log which shells an account owns. -/
def tellOwned (name : AccountName) (nfts : List Nat) (next : Phase) : Phase :=
  nfts.foldr (fun nft => say ("🥚 " ++ name.title ++ " owns Origin of Shell " ++ toString nft)) next

/-- Looks up the shells that accounts own on the chain, and goes on with all that were found. -/
def lookUpOwned (collection : Nat) (next : List (AccountName × Nat) → Phase) :
    List (AccountName × Nat) → List AccountName → Phase
  | found, [] => next found
  | found, name :: rest =>
    askOwned name collection fun nfts =>
      tellOwned name nfts <|
      lookUpOwned collection next (found ++ nfts.map fun nft => (name, nft)) rest

/-- The shells to incubate: those of the plan if it names any, and otherwise those that the
incubators own on the chain. -/
def withShells (p : IncubationPlan) (collection : Nat)
    (next : List (AccountName × Nat) → Phase) : Phase :=
  if p.holdings.isEmpty then lookUpOwned collection next [] p.incubators
  else next (p.holdings.flatMap fun h => h.nfts.map fun nft => (h.account, nft))

/-- The feeding rounds from a number on. -/
def feed (collection : Nat) (next : Phase) : Nat → List (List Feeding) → Phase
  | _, [] => next
  | number, round :: rest =>
    users ("Feeding round " ++ toString number)
      (round.map fun f => (f.account, .feedOriginOfShell collection f.nft)) <|
    feed collection next (number + 1) rest

/-- Shortens the hatch times of the most fed shells of the current era. -/
def reward (reductions : List Nat) : Phase :=
  askEra fun era =>
  askFood era fun counts =>
  say ("🍽️ " ++ toString counts.length ++ " Origin of Shells fed in era " ++ toString era) <|
  let ranked := rankHatchTimes counts reductions
  if ranked.isEmpty then say "No fed Origin of Shells, hatch times unchanged" done
  else decree "Update incubation times" (.updateIncubationTime ranked) done

/-- Enables incubation in a collection, starts it for all shells, and runs the feeding rounds. -/
def incubate (p : IncubationPlan) (collection : Nat) : Phase :=
  decree "Enable the incubation process" (.setCanStartIncubationStatus true) <|
  withShells p collection fun shells =>
  users "Start incubation"
    (shells.map fun (name, nft) => (name, .startIncubation collection nft)) <|
  feed collection (reward p.reductions) 1 p.rounds

/-- Incubates the shells of the collection that the plan names, or else the chain. -/
def incubation (p : IncubationPlan) : Phase :=
  match p.collection with
  | some collection => incubate p collection
  | none =>
    askCollection fun
      | some collection => incubate p collection
      | none => fail .noCollection

end Phase

/-- The phases of the sale. -/
inductive PhaseName where
  | init
  | spiritClaim
  | rarePurchase
  | whitelistPurchase
  | preorder
  | lastDay
  | incubation
deriving DecidableEq, Inhabited

namespace PhaseName

/-- All phases, in order. -/
def all : List PhaseName :=
  [init, spiritClaim, rarePurchase, whitelistPurchase, preorder, lastDay, incubation]

/-- The name on the command line. -/
def text : PhaseName → String
  | init => "init"
  | spiritClaim => "spirit-claim"
  | rarePurchase => "rare-purchase"
  | whitelistPurchase => "whitelist-purchase"
  | preorder => "preorder"
  | lastDay => "last-day"
  | incubation => "incubation"

/-- The name in messages. -/
def title : PhaseName → String
  | init => "Init"
  | spiritClaim => "SpiritClaim"
  | rarePurchase => "RarePurchase"
  | whitelistPurchase => "WhitelistPurchase"
  | preorder => "Preorder"
  | lastDay => "LastDay"
  | incubation => "Incubation"

/-- The phase with a name on the command line. -/
def ofText? (name : String) : Option PhaseName :=
  all.find? fun p => p.text == name

/-- What a phase does under a plan. -/
def phase (k : Keyring) (p : SalePlan) : PhaseName → Phase
  | init => .init k p
  | spiritClaim => .spiritClaim k p
  | rarePurchase => .rarePurchase p
  | whitelistPurchase => .whitelistPurchase k p
  | preorder => .preorder p
  | lastDay => .lastDay p
  | incubation => .incubation p.incubation

end PhaseName

end ShellSale
