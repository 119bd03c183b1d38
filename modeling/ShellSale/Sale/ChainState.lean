import ShellSale.Account.Address
import ShellSale.Chain.Storage

/-!
# What the phases read from the chain

Ids are taken from the ends of storage keys, as the keys end with the bytes of what they are about.
A key that is too short for its ids fails the whole reading.
-/

namespace ShellSale

/-- How often shells were fed, by collection and number in ascending order. -/
abbrev FeedCounts := List (Shell × Nat)

/-- Why something cannot be read from the chain. -/
inductive ChainStateError where
  /-- The storage could not be read; the context says what for. -/
  | storage (context : String) (fault : StorageFault)
  /-- A key of a map is too short. -/
  | malformedKey (item : String)
deriving DecidableEq

namespace ChainStateError

/-- What went wrong, and what caused it. -/
def parts : ChainStateError → List String
  | storage context fault => fault.parts context
  | malformedKey item => ["malformed " ++ item ++ " key"]

/-- The error in words. -/
def message (e : ChainStateError) : String :=
  ": ".intercalate e.parts

end ChainStateError

/-- The 32-bit ids that bytes stand for, four bytes each. -/
def idsOf : List UInt8 → List Nat
  | a :: b :: c :: d :: rest => Bytes.ofLittleEndian [a, b, c, d] :: idsOf rest
  | _ => []

/-- The last `count` ids of a key. -/
def trailingIds? (count : Nat) (key : List UInt8) : Option (List Nat) :=
  if key.length < 4 * count then none else some (idsOf (key.drop (key.length - 4 * count)))

namespace FeedCounts

/-- Whether a shell comes before another. -/
def before (a b : Shell) : Bool :=
  a.1 < b.1 || (a.1 == b.1 && a.2 < b.2)

/-- Puts a count under a shell, in the place of one that is there. -/
def insert (shell : Shell) (count : Nat) : FeedCounts → FeedCounts
  | [] => [(shell, count)]
  | (other, n) :: rest =>
    if shell = other then (shell, count) :: rest
    else if before shell other then (shell, count) :: (other, n) :: rest
    else (other, n) :: insert shell count rest

end FeedCounts

namespace ChainState

variable {σ : Type}

/-- Runs a reading of the storage for a purpose. -/
def forPurpose {α : Type} (context : String) (r : Except StorageFault α) :
    Except ChainStateError α :=
  match r with
  | .ok x => .ok x
  | .error fault => .error (.storage context fault)

/-- The collection of the Origin of Shells, if the sale has set one. -/
def collection (s : Storage σ) (node : σ) (now : Nat) : Except ChainStateError (Option Nat) :=
  forPurpose "could not read the Origin of Shell collection id" (s.collection node now)

/-- The current era. -/
def era (s : Storage σ) (node : σ) (now : Nat) : Except ChainStateError Nat :=
  forPurpose "could not read the current era" (s.era node now)

/-- The numbers of shells at the ends of keys. -/
def nftsOf : List StoredEntry → Except ChainStateError (List Nat)
  | [] => .ok []
  | entry :: rest =>
    match trailingIds? 1 entry.key with
    | some [nft] => do return nft :: (← nftsOf rest)
    | _ => .error (.malformedKey "Uniques.Account")

/-- The numbers of the shells that an account owns in a collection, in the order of the storage. -/
def owned (s : Storage σ) (node : σ) (now : Nat) (a : AccountId) (collection : Nat) :
    Except ChainStateError (List Nat) := do
  nftsOf (← forPurpose ("could not list the NFTs of " ++ a.address)
    (s.owned node now a collection))

/-- The counts of feedings of the shells at the ends of keys, added to counts read already. -/
def countsOf : FeedCounts → List StoredEntry → Except ChainStateError FeedCounts
  | counts, [] => .ok counts
  | counts, entry :: rest =>
    match trailingIds? 2 entry.key with
    | some [collection, nft] => countsOf (counts.insert (collection, nft) entry.value) rest
    | _ => .error (.malformedKey "PwIncubation.OriginOfShellFoodStats")

/-- How often shells were fed in an era. -/
def food (s : Storage σ) (node : σ) (now : Nat) (era : Nat) :
    Except ChainStateError FeedCounts := do
  countsOf [] (← forPurpose ("could not list the food stats of era " ++ toString era)
    (s.food node now era))

end ChainState

end ShellSale
