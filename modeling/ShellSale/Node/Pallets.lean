import ShellSale.Submission.Watch
import ShellSale.Text.Lowercase

/-!
# Errors of the pallets

The runtime describes the errors that its pallets define: a number, a name, and lines of
documentation.
-/

namespace ShellSale

/-- An error that a pallet defines. -/
structure PalletVariant where
  number : UInt8
  name : String
  docs : List String
deriving DecidableEq

/-- A pallet of the runtime. -/
structure Pallet where
  name : String
  index : UInt8
  errors : List PalletVariant := []
deriving DecidableEq

namespace Pallet

/-- The name with its first letter in lower case. -/
def section_ (p : Pallet) : String :=
  match p.name.toList with
  | [] => ""
  | c :: rest => String.ofList (Text.lowercase c ++ rest)

/-- The pallets that every runtime of the sale has. -/
def standard : List Pallet := [
  { name := "Balances", index := 5, errors := [
      ⟨2, "InsufficientBalance", ["Balance too low to send value."]⟩,
      ⟨3, "ExistentialDeposit",
        ["Value too low to create account due to", "existential deposit."]⟩] },
  { name := "Sudo", index := 10, errors := [
      ⟨0, "RequireSudo", ["Sender must be the Sudo account."]⟩] },
  { name := "Uniques", index := 51, errors := [
      ⟨0, "NoPermission", []⟩,
      ⟨1, "UnknownCollection", [" leading space", "", "after a blank line"]⟩] },
  { name := "PwNftSale", index := 88, errors := [
      ⟨0, "WorldClockAlreadySet", []⟩,
      ⟨1, "SpiritClaimNotAvailable", ["Spirit claims are closed"]⟩,
      ⟨3, "NotEligible", ["The account is not eligible", "for this sale phase"]⟩,
      ⟨255, "LastVariant", ["Naïve 🥚 docs"]⟩] },
  { name := "PwIncubation", index := 89, errors := [
      ⟨0, "CannotHatchOriginOfShell", []⟩,
      ⟨7, "WrongCollectionId", ["The collection does not match"]⟩] }]

/-- Decodes errors by the pallets of a runtime. -/
def table (pallets : List Pallet) : ErrorTable := fun index e => do
  let pallet ← pallets.find? fun p => p.index = index
  let variant ← pallet.errors.find? fun v => v.number = e.variant
  return ⟨pallet.section_, variant.name, " ".intercalate variant.docs⟩

end Pallet

end ShellSale
