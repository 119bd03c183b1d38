import ShellSale.Chain.Storage
import ShellSale.Node.Basic

/-!
# The storage of a node

What the node in memory holds besides nonces, as the raw entries of a chain's storage.
-/

namespace ShellSale

namespace Node

/-- The bytes of a 32-bit id in a key. -/
def idBytes (id : Nat) : List UInt8 :=
  Bytes.littleEndian 4 id

/-- The failure set for an item of the storage. -/
def failure? (n : Node) (pallet item : String) : Option String :=
  (n.failures.find? fun f => f.1 == pallet ++ "." ++ item).map (·.2)

/-- What keeps the node from answering about a pallet. -/
def checkPallet (n : Node) (pallet : String) : Except StorageFault Unit :=
  match n.headFailure? with
  | some message => .error (.noHead message)
  | none => if n.runtime.lacksPallet pallet then .error (.noPallet pallet) else .ok ()

/-- Reads a value. -/
def fetch (n : Node) (pallet item : String) (value : Option Nat) :
    Except StorageFault (Option Nat) := do
  n.checkPallet pallet
  match n.failure? pallet item with
  | some message => .error (.request message)
  | none => .ok value

/-- Lists the entries of a map. -/
def list (n : Node) (pallet item : String) (entries : List StoredEntry) :
    Except StorageFault (List StoredEntry) := do
  n.checkPallet pallet
  match n.failure? pallet item with
  | some message => .error (.listing message)
  | none => .ok entries

/-- Reads the collection of the Origin of Shells. -/
def fetchCollection (n : Node) : Except StorageFault (Option Nat) :=
  n.fetch "PwNftSale" "OriginOfShellCollectionId" n.collection

/-- Reads the era, zero if it was never set. -/
def fetchEra (n : Node) : Except StorageFault Nat := do
  return (← n.fetch "PwNftSale" "Era" (some n.era)).getD 0

/-- The key of a shell that an account owns. -/
def ownedKey (a : AccountId) (collection nft : Nat) : List UInt8 :=
  a.toList ++ idBytes collection ++ idBytes nft

/-- Lists the shells that an account owns in a collection. -/
def listOwned (n : Node) (a : AccountId) (collection : Nat) :
    Except StorageFault (List StoredEntry) :=
  n.list "Uniques" "Account" <| n.owned.filterMap fun (name, c, nft) =>
    if n.keyring.account name = a ∧ c = collection then some ⟨ownedKey a c nft, 0⟩ else none

/-- The key of the count of a shell's feedings in an era. -/
def foodKey (era collection nft : Nat) : List UInt8 :=
  Bytes.littleEndian 8 era ++ idBytes collection ++ idBytes nft

/-- Lists how often shells were fed in an era. -/
def listFood (n : Node) (era : Nat) : Except StorageFault (List StoredEntry) :=
  n.list "PwIncubation" "OriginOfShellFoodStats" <|
    n.food.filterMap fun (e, collection, nft, count) =>
      if e = era then some ⟨foodKey e collection nft, count⟩ else none

/-- The storage of the node. It does not change. -/
def storage : Storage Node where
  collection n _ := n.fetchCollection
  era n _ := n.fetchEra
  owned n _ := n.listOwned
  food n _ := n.listFood

end Node

end ShellSale
