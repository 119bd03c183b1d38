import ShellSale.Node.Storage
import ShellSale.Sale.Phase

/-!
# Timelines

What somebody sees who reads the log of the sale and the node's list of calls side by side. The
calls between two lines of the log come from accounts that act at the same time, so they have no
order of their own: they are shown by account, and by nonce.
-/

namespace ShellSale

/-- A line of the log, or a call that the node received. -/
inductive TimelineItem where
  | line (l : LogLine)
  | received (sender : AccountId) (nonce : Nat) (call : Call)
deriving DecidableEq

namespace Timeline

/-- Where a call is shown among others. -/
def rank (k : Keyring) (s : Sent Call) : Nat × Nat :=
  (((k.name? s.account).map (·.index)).getD 7, s.nonce)

/-- Calls in the order in which they are shown. -/
def arranged (k : Keyring) (calls : List (Sent Call)) : List TimelineItem :=
  let ordered := calls.mergeSort fun a b =>
    (rank k a).1 < (rank k b).1 || ((rank k a).1 == (rank k b).1 && (rank k a).2 ≤ (rank k b).2)
  ordered.map fun s => .received s.account s.nonce s.call

/-- The timeline of a log, behind calls that came before it. Calls that never got to the node are
left out. -/
def ofLog (n : Node) (pending : List (Sent Call)) : List (Entry Call) → List TimelineItem
  | [] => arranged n.keyring pending
  | .notice _ :: rest => ofLog n pending rest
  | .line l :: rest => arranged n.keyring pending ++ .line l :: ofLog n [] rest
  | .sent s :: rest =>
    ofLog n (if (n.obstacle? s.call).isNone then pending ++ [s] else pending) rest

end Timeline

end ShellSale
