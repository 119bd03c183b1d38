import ShellSale.Account.Name

/-!
# Grouping by account

Values that belong to accounts are grouped by account. Groups stand in the order in which their
accounts first occur, and values keep their order within a group.
-/

namespace ShellSale

variable {α : Type}

/-- Puts a value behind those of its account, or into a new group at the end. -/
def addToGroups (name : AccountName) (x : α) :
    List (AccountName × List α) → List (AccountName × List α)
  | [] => [(name, [x])]
  | (other, xs) :: rest =>
    if other = name then (other, xs ++ [x]) :: rest else (other, xs) :: addToGroups name x rest

/-- Groups values by account. -/
def groupByAccount (items : List (AccountName × α)) : List (AccountName × List α) :=
  items.foldl (fun groups item => addToGroups item.1 item.2 groups) []

end ShellSale
