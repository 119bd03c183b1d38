import ShellSale.Sale.ChainState

/-!
# The ranking of fed shells

The more often a shell was fed, the earlier it hatches: shells that were fed at all are ranked by
their counts, the most fed first and equals in their own order, and reductions go down the ranking
until they or the shells run out.
-/

namespace ShellSale

namespace FeedCounts

/-- Whether a shell with its count is ranked no later than another. -/
def ranksFirst (a b : Shell × Nat) : Bool :=
  b.2 < a.2 || (a.2 == b.2 && !before b.1 a.1)

/-- The shells that were fed, in the order of the ranking. -/
def ranking (counts : FeedCounts) : List (Shell × Nat) :=
  (counts.filter fun entry => 0 < entry.2).mergeSort ranksFirst

end FeedCounts

/-- Hands out reductions along the ranking. -/
def rankHatchTimes (counts : FeedCounts) (reductions : List Nat) : List (Shell × Nat) :=
  (counts.ranking.map (·.1)).zip reductions

end ShellSale
