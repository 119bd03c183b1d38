import ShellSale.Bytes.Hex
import ShellSale.Call.Choice
import ShellSale.Call.Ticket

/-!
# Calls

The calls that the sale makes on the runtime, and how the runtime sees them: a pallet, a name in it
and named fields.
-/

namespace ShellSale

/-- The smallest units in one whole token. -/
def unit : Nat := 1000000000000

/-- The first amount that takes more than 128 bits. -/
def amountBound : Nat := 0x100000000000000000000000000000000

/-- A number of whole tokens in smallest units, `none` if that takes more than 128 bits. -/
def tokens? (amount : Nat) : Option Nat :=
  if amount * unit < amountBound then some (amount * unit) else none

/-- A shell: its collection and its number in it. -/
abbrev Shell := Nat × Nat

/-- A call on the runtime. -/
inductive Call where
  | transfer (dest : AccountId) (amount : Nat)
  | asRoot (call : Call)
  | setOverlord (account : AccountId)
  | initializeWorldClock
  | createCollection (metadata symbol : String)
  | setSpiritCollectionId (id : Nat)
  | setOriginOfShellCollectionId (id : Nat)
  | setShellCollectionId (id : Nat)
  | initRarityTypeCounts
  | setStatusType (enabled : Bool) (switch : Switch)
  | setSpiritsMetadata (uri : String)
  | setOriginOfShellsMetadata (uris : List (Race × String))
  | claimSpirit
  | buyRareOriginOfShell (rarity : Rarity) (race : Race) (career : Career)
  | buyPrimeOriginOfShell (ticket : Signature) (race : Race) (career : Career)
  | preorderOriginOfShell (race : Race) (career : Career)
  | updateRarityTypeCounts (rarity : Rarity) (forSale giveaway : Nat)
  | mintChosenPreorders (ids : List Nat)
  | refundNotChosenPreorders (ids : List Nat)
  | setCanStartIncubationStatus (enabled : Bool)
  | startIncubation (collection nft : Nat)
  | feedOriginOfShell (collection nft : Nat)
  | updateIncubationTime (reductions : List (Shell × Nat))
deriving DecidableEq, Inhabited

/-- The value of a field as the runtime decodes it. -/
inductive Value where
  | bytes (b : List UInt8)
  | number (n : Nat)
  | flag (b : Bool)
  /-- A variant without content. -/
  | variant (name : String)
  /-- The address of an account given by its id. -/
  | address (a : AccountId)
  | signature (s : Signature)
  | list (vs : List Value)
  | call (pallet name : String) (fields : List (String × Value))

namespace Value

/-- Text as its bytes. -/
def ofText (s : String) : Value :=
  .bytes s.toUTF8.toList

/-- A list of numbers. -/
def numbers (ns : List Nat) : Value :=
  .list (ns.map .number)

end Value

namespace Call

/-- The pallet that takes the call. -/
def pallet : Call → String
  | transfer .. => "Balances"
  | asRoot _ => "Sudo"
  | setShellCollectionId _ | setCanStartIncubationStatus _ | startIncubation .. |
    feedOriginOfShell .. | updateIncubationTime _ => "PwIncubation"
  | _ => "PwNftSale"

/-- The name of the call in its pallet. -/
def name : Call → String
  | transfer .. => "transfer"
  | asRoot _ => "sudo"
  | setOverlord _ => "set_overlord"
  | initializeWorldClock => "initialize_world_clock"
  | createCollection .. => "pw_create_collection"
  | setSpiritCollectionId _ => "set_spirit_collection_id"
  | setOriginOfShellCollectionId _ => "set_origin_of_shell_collection_id"
  | setShellCollectionId _ => "set_shell_collection_id"
  | initRarityTypeCounts => "init_rarity_type_counts"
  | setStatusType .. => "set_status_type"
  | setSpiritsMetadata _ => "set_spirits_metadata"
  | setOriginOfShellsMetadata _ => "set_origin_of_shells_metadata"
  | claimSpirit => "claim_spirit"
  | buyRareOriginOfShell .. => "buy_rare_origin_of_shell"
  | buyPrimeOriginOfShell .. => "buy_prime_origin_of_shell"
  | preorderOriginOfShell .. => "preorder_origin_of_shell"
  | updateRarityTypeCounts .. => "update_rarity_type_counts"
  | mintChosenPreorders _ => "mint_chosen_preorders"
  | refundNotChosenPreorders _ => "refund_not_chosen_preorders"
  | setCanStartIncubationStatus _ => "set_can_start_incubation_status"
  | startIncubation .. => "start_incubation"
  | feedOriginOfShell .. => "feed_origin_of_shell"
  | updateIncubationTime _ => "update_incubation_time"

/-- The fields of a call. -/
def fields : Call → List (String × Value)
  | transfer dest amount => [("dest", .address dest), ("value", .number amount)]
  | asRoot call => [("call", .call call.pallet call.name call.fields)]
  | setOverlord account => [("new_overlord", .bytes account.toList)]
  | initializeWorldClock | initRarityTypeCounts | claimSpirit => []
  | createCollection metadata symbol =>
    [("metadata", .ofText metadata), ("max", .variant "None"), ("symbol", .ofText symbol)]
  | setSpiritCollectionId id | setOriginOfShellCollectionId id | setShellCollectionId id =>
    [("collection_id", .number id)]
  | setStatusType enabled switch =>
    [("status", .flag enabled), ("status_type", .variant switch.text)]
  | setSpiritsMetadata uri => [("spirits_metadata", .ofText uri)]
  | setOriginOfShellsMetadata uris =>
    [("origin_of_shells_metadata",
      .list (uris.map fun (race, uri) => .list [.variant race.text, .ofText uri]))]
  | buyRareOriginOfShell rarity race career =>
    [("rarity_type", .variant rarity.text), ("race", .variant race.text),
      ("career", .variant career.text)]
  | buyPrimeOriginOfShell ticket race career =>
    [("signature", .signature ticket), ("race", .variant race.text),
      ("career", .variant career.text)]
  | preorderOriginOfShell race career =>
    [("race", .variant race.text), ("career", .variant career.text)]
  | updateRarityTypeCounts rarity forSale giveaway =>
    [("rarity_type", .variant rarity.text), ("for_sale_count", .number forSale),
      ("giveaway_count", .number giveaway)]
  | mintChosenPreorders ids | refundNotChosenPreorders ids => [("preorders", .numbers ids)]
  | setCanStartIncubationStatus enabled => [("status", .flag enabled)]
  | startIncubation collection nft | feedOriginOfShell collection nft =>
    [("collection_id", .number collection), ("nft_id", .number nft)]
  | updateIncubationTime reductions =>
    [("origin_of_shells",
      .list (reductions.map fun ((collection, nft), seconds) =>
        .list [.numbers [collection, nft], .number seconds]))]

end Call

end ShellSale
