import ShellSale.Account.Id

/-!
# The registry of open signers

At most one holder at a time may issue the nonces of an account. `Registry.acquire` claims an
account unless it is held; `Registry.release` gives it back.
-/

namespace ShellSale

/-- The accounts whose nonces somebody issues at present. -/
structure Registry where
  held : List AccountId := []
deriving DecidableEq

namespace Registry

/-- Whether somebody holds the account. -/
def holds (r : Registry) (a : AccountId) : Bool :=
  r.held.contains a

/-- Claims an account; `none` if it is held already. -/
def acquire? (r : Registry) (a : AccountId) : Option Registry :=
  if r.holds a then none else some ⟨a :: r.held⟩

/-- Gives an account back. -/
def release (r : Registry) (a : AccountId) : Registry :=
  ⟨r.held.erase a⟩

theorem holds_iff {r : Registry} {a : AccountId} : r.holds a = true ↔ a ∈ r.held := by
  simp [holds]

theorem acquire?_eq_some_iff {r s : Registry} {a : AccountId} :
    r.acquire? a = some s ↔ a ∉ r.held ∧ s = ⟨a :: r.held⟩ := by
  by_cases h : a ∈ r.held
  · simp [acquire?, holds, h]
  · simp [acquire?, holds, h, eq_comm]

end Registry

end ShellSale
