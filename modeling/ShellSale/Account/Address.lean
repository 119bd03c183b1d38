import ShellSale.Account.Id
import ShellSale.Bytes.Base58
import ShellSale.Bytes.Blake2b

/-!
# Addresses

The text of an account in messages: base 58 of the network number 42, the account and the first
two bytes of a digest that guards against typing errors.
-/

namespace ShellSale.AccountId

/-- The network number of addresses that belong to no particular chain. -/
def network : UInt8 := 42

/-- The bytes under the digest: a fixed word, the network and the account. -/
def checksumInput (a : AccountId) : List UInt8 :=
  "SS58PRE".toUTF8.toList ++ network :: a.toList

/-- The address of an account. -/
def address (a : AccountId) : String :=
  Bytes.base58 (network :: a.toList ++ (Bytes.Blake2b.digest a.checksumInput).take 2)

instance : ToString AccountId := ⟨address⟩

end ShellSale.AccountId
