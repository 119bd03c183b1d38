/-!
# The accounts of a sale

Seven accounts take part in a sale, under fixed names and in a fixed order. `alice` is the root
account of the chain, `overlord` the administrator of the sale.
-/

namespace ShellSale

/-- An account of the sale. -/
inductive AccountName where
  | alice | bob | charlie | david | eve | ferdie | overlord
deriving DecidableEq, Inhabited

namespace AccountName

/-- All accounts, in order. -/
def all : List AccountName :=
  [alice, bob, charlie, david, eve, ferdie, overlord]

/-- The place of an account in the order. -/
def index : AccountName → Nat
  | alice => 0
  | bob => 1
  | charlie => 2
  | david => 3
  | eve => 4
  | ferdie => 5
  | overlord => 6

/-- The name in plans. -/
def text : AccountName → String
  | alice => "alice"
  | bob => "bob"
  | charlie => "charlie"
  | david => "david"
  | eve => "eve"
  | ferdie => "ferdie"
  | overlord => "overlord"

/-- The name in messages, with a capital. -/
def title : AccountName → String
  | alice => "Alice"
  | bob => "Bob"
  | charlie => "Charlie"
  | david => "David"
  | eve => "Eve"
  | ferdie => "Ferdie"
  | overlord => "Overlord"

/-- The account with a name. -/
def ofText? (name : String) : Option AccountName :=
  all.find? fun a => a.text == name

theorem mem_all (a : AccountName) : a ∈ all := by
  cases a <;> decide

theorem ofText?_text (a : AccountName) : ofText? a.text = some a := by
  cases a <;> decide

end AccountName

end ShellSale
