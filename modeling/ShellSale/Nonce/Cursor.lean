/-!
# The nonce cursor

A cursor hands out the nonces of one account, each once and in order. A nonce is a 64-bit number:
there is no nonce after the largest, so the cursor stops there instead of starting over. Main
statement: `advance?_eq_some_iff` says exactly when a nonce is handed out and which.
-/

namespace ShellSale

/-- The next nonce of one account. -/
structure NonceCursor where
  next : Nat
deriving DecidableEq

namespace NonceCursor

/-- The largest nonce. It is never handed out, as no nonce follows it. -/
def last : Nat :=
  UInt64.size - 1

/-- The nonce that the next submission will use. -/
def peek (c : NonceCursor) : Nat :=
  c.next

/-- Hands out the current nonce and moves past it; at the largest nonce it does neither. -/
def advance? (c : NonceCursor) : Option (Nat × NonceCursor) :=
  if c.next < last then some (c.next, ⟨c.next + 1⟩) else none

/-- Goes on from a nonce that the chain reported. -/
def reset (_ : NonceCursor) (chainNonce : Nat) : NonceCursor :=
  ⟨chainNonce⟩

theorem advance?_eq_some_iff {c d : NonceCursor} {n : Nat} :
    c.advance? = some (n, d) ↔ c.next < last ∧ n = c.next ∧ d = ⟨c.next + 1⟩ := by
  by_cases h : c.next < last
  · simp [advance?, h, eq_comm]
  · simp [advance?, h]

end NonceCursor

end ShellSale
