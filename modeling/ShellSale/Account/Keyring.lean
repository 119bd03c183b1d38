import ShellSale.Account.Address
import ShellSale.Account.Map
import ShellSale.Account.Name

/-!
# The keys of the sale

Every account of the sale has a secret URI, from which its key is derived. The administrator's may
be given under either of two names. `SecretUris.load` derives all keys and refuses two names for
one account, as the nonces of an account can be issued in one place only.
-/

namespace ShellSale

/-- Why a secret URI gives no key. -/
inductive UriFault where
  /-- It is not a secret URI. -/
  | malformed
  /-- Its phrase is not a mnemonic. -/
  | wordCount (words : Nat)
deriving DecidableEq

namespace UriFault

/-- What could not be done for the holder of the key. -/
def context (holder : String) : UriFault → String
  | malformed => "invalid secret URI for " ++ holder
  | wordCount _ => "could not derive the " ++ holder ++ " key"

/-- The fault in words. -/
def message : UriFault → String
  | malformed => "Invalid secret phrase format"
  | wordCount words =>
    "Cannot parse phrase: mnemonic has an invalid word count: " ++ toString words ++
      ". Word count must be 12, 15, 18, 21, or 24"

end UriFault

/-- Derives accounts from secret URIs. -/
abbrev Derivation := String → Except UriFault AccountId

/-- The secret URIs of the accounts of the sale. -/
structure SecretUris where
  root : String := "//Alice"
  user : String := "//Bob"
  charlie : String := "//Charlie"
  david : String := "//Dave"
  eve : String := "//Eve"
  ferdie : String := "//Ferdie"
  overlord : Option String := none
  /-- The administrator's under its older name. -/
  overload : Option String := none
deriving DecidableEq

/-- The accounts of the sale. -/
structure Keyring where
  account : AccountName → AccountId

/-- Why the keys of the sale cannot be used. -/
inductive KeyError where
  | fault (holder : String) (fault : UriFault)
  /-- Two names stand for one account. -/
  | collision (first second : AccountName) (account : AccountId)
deriving DecidableEq

namespace KeyError

/-- What went wrong, and what caused it. -/
def parts : KeyError → List String
  | fault holder f => [f.context holder, f.message]
  | collision first second account =>
    [first.title ++ " and " ++ second.title ++ " resolve to the same account " ++ account.address]

/-- What went wrong, without the cause. -/
def summary (e : KeyError) : String :=
  e.parts.headD ""

/-- The error in words. -/
def message (e : KeyError) : String :=
  ": ".intercalate e.parts

end KeyError

namespace AccountName

/-- Who holds the key of an account, in messages. -/
def holder : AccountName → String
  | alice => "root"
  | bob => "user"
  | name => name.text

end AccountName

namespace Keyring

/-- The first name in order whose account an earlier name has too, after that earlier name. The
names still to come are checked against those `seen`. -/
def collisionAmong (k : Keyring) : List AccountName → List AccountName →
    Option (AccountName × AccountName)
  | _, [] => none
  | seen, name :: rest =>
    match seen.find? fun s => k.account s = k.account name with
    | some first => some (first, name)
    | none => collisionAmong k (seen ++ [name]) rest

/-- The first collision in the order of the names. -/
def collision? (k : Keyring) : Option (AccountName × AccountName) :=
  k.collisionAmong [] AccountName.all

/-- The name of an account, if it takes part in the sale. -/
def name? (k : Keyring) (a : AccountId) : Option AccountName :=
  AccountName.all.find? fun n => k.account n = a

end Keyring

namespace SecretUris

/-- The mnemonic of the administrator on a development chain. -/
def defaultOverlord : String :=
  "merge almost index garbage agent bracket layer skirt boss fly credit deal"

/-- The secret URI of an account. -/
def uri (u : SecretUris) : AccountName → String
  | .alice => u.root
  | .bob => u.user
  | .charlie => u.charlie
  | .david => u.david
  | .eve => u.eve
  | .ferdie => u.ferdie
  | .overlord => (u.overlord.or u.overload).getD defaultOverlord

/-- The account that a name's secret URI gives. -/
def derive (u : SecretUris) (key : Derivation) (name : AccountName) : Except KeyError AccountId :=
  match key (u.uri name) with
  | .ok account => .ok account
  | .error fault => .error (.fault name.holder fault)

/-- Derives all keys in the order of the names, then checks that no two names stand for one
account. -/
def load (u : SecretUris) (key : Derivation) : Except KeyError Keyring := do
  let alice ← u.derive key .alice
  let bob ← u.derive key .bob
  let charlie ← u.derive key .charlie
  let david ← u.derive key .david
  let eve ← u.derive key .eve
  let ferdie ← u.derive key .ferdie
  let overlord ← u.derive key .overlord
  let keyring : Keyring :=
    ⟨fun
      | .alice => alice
      | .bob => bob
      | .charlie => charlie
      | .david => david
      | .eve => eve
      | .ferdie => ferdie
      | .overlord => overlord⟩
  match keyring.collision? with
  | some (first, second) => .error (.collision first second (keyring.account second))
  | none => .ok keyring

end SecretUris

namespace Derivation

/-- The keys of a development chain. -/
def developmentKeys : List (String × AccountId) := [
  ("//Alice", .ofNat 0xd43593c715fdd31c61141abd04a99fd6822c8558854ccde39a5684e7a56da27d),
  ("//Bob", .ofNat 0x8eaf04151687736326c9fea17e25fc5287613693c912909cb226aa4794f26a48),
  ("//Charlie", .ofNat 0x90b5ab205c6974c9ea841be688864633dc9ca8a357843eeacf2314649965fe22),
  ("//Dave", .ofNat 0x306721211d5404bd9da88e0204360a1a9ab8b87c66c1bc2fcdd37f3c2222cc20),
  ("//Eve", .ofNat 0xe659a7a1628cdd93febc04a4e0646ea20e9f5f0ce097d9a05290d4a9e054df4e),
  ("//Ferdie", .ofNat 0x1cbd2d43530a44705ad088af313e18f80b53ef16b36177cd4b77b846f2a5f07c),
  (SecretUris.defaultOverlord,
    .ofNat 0x9441ad0000172f3cfaa1b6050fc82800b4f5974854fbd23ac18b8a281b637c78),
  ("//Overlord", .ofNat 0x989a42f204240720a50ff210b032c9ca62757f808899c6f0f5f6cf1e04c37449),
  ("//Admin", .ofNat 0x224c165ffa105effca35afb231aa4d00b3b4c7e3bb1549cd2c48369f8e28d80f),
  ("", .ofNat 0x46ebddef8cd9bb167dc30878d7113b7e168e6f0646beffd77d69d39bad76b47a)]

/-- How many words a text has between blanks. -/
def wordsIn (uri : String) : Nat :=
  ((uri.toList.splitOn ' ').filter fun word => !word.isEmpty).length

/-- The keys of a development chain. A URI that they lack is a phrase if it is made of letters,
digits and blanks, which cannot be derived, and malformed otherwise. -/
def development : Derivation := fun uri =>
  match developmentKeys.find? fun k => k.1 == uri with
  | some (_, account) => .ok account
  | none =>
    if uri.toList.all fun c => c.isAlphanum || c = ' ' then .error (.wordCount (wordsIn uri))
    else .error .malformed

end Derivation

namespace Keyring

/-- The accounts of a development chain. -/
def development : Keyring :=
  ({} : SecretUris).load Derivation.development |>.toOption.getD ⟨fun _ => default⟩

end Keyring

end ShellSale
