import ShellSale.Account.Id

/-!
# Whitelist tickets

The overlord whitelists an account by signing a message that names it. Signatures are ideal: one is
known by who made it and for which message, and it verifies under that signer and for that message
alone.
-/

namespace ShellSale

/-- What a ticket permits. -/
inductive Purpose where
  | redeemSpirit
  | buyPrimeOriginOfShells
deriving DecidableEq

/-- The number that stands for a purpose in a message. -/
def Purpose.number : Purpose → UInt8
  | redeemSpirit => 0
  | buyPrimeOriginOfShells => 1

/-- The message that whitelists an account: its 32 bytes, then the number of the purpose. -/
def whitelistMessage (account : AccountId) : List UInt8 :=
  account.toList ++ [Purpose.buyPrimeOriginOfShells.number]

/-- A signature on a message: one made by a signer, or any bytes. -/
inductive Signature where
  | made (signer : AccountId) (message : List UInt8)
  | raw (bytes : List UInt8)
deriving DecidableEq

namespace Signature

/-- How many bytes a signature takes. -/
def size : Nat := 64

/-- Whether a signature is a signer's for a message. -/
def verify (s : Signature) (signer : AccountId) (message : List UInt8) : Bool :=
  s = .made signer message

end Signature

/-- The signature by which the overlord whitelists an account. -/
def whitelistTicket (overlord account : AccountId) : Signature :=
  .made overlord (whitelistMessage account)

theorem whitelistMessage_injective {a b : AccountId}
    (h : whitelistMessage a = whitelistMessage b) : a = b :=
  AccountId.toList_injective (List.append_inj_left' h rfl)

end ShellSale
