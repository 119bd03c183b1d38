import ShellSale.Account.Id

/-!
# Maps keyed by account

Association lists whose keys ascend in the order of accounts. Inserting under a key that is there
replaces its value.
-/

namespace ShellSale

/-- Values by account, in the order of accounts. -/
abbrev AccountMap (α : Type) := List (AccountId × α)

namespace AccountMap

variable {α : Type}

/-- Puts a value under an account. -/
def insert (a : AccountId) (x : α) : AccountMap α → AccountMap α
  | [] => [(a, x)]
  | (b, y) :: rest =>
    if a = b then (a, x) :: rest
    else if a.toNat ≤ b.toNat then (a, x) :: (b, y) :: rest
    else (b, y) :: insert a x rest

/-- The value under an account. -/
def get? (m : AccountMap α) (a : AccountId) : Option α :=
  (m.find? fun (b, _) => b = a).map (·.2)

@[simp] theorem get?_nil (a : AccountId) : get? ([] : AccountMap α) a = none := rfl

theorem get?_cons (b : AccountId) (y : α) (rest : AccountMap α) (a : AccountId) :
    get? ((b, y) :: rest) a = if b = a then some y else get? rest a := by
  by_cases h : b = a <;> simp [get?, h]

/-- After an insertion its account has the new value, and every other account what it had. -/
theorem get?_insert (m : AccountMap α) (a b : AccountId) (x : α) :
    (insert a x m).get? b = if a = b then some x else m.get? b := by
  induction m with
  | nil => simp [insert, get?_cons]
  | cons head rest ih =>
    obtain ⟨c, y⟩ := head
    unfold insert
    by_cases hac : a = c
    · subst hac
      by_cases hab : a = b <;> simp [get?_cons, hab]
    · by_cases hle : a.toNat ≤ c.toNat
      · simp [hac, hle, get?_cons]
      · simp only [hac, hle, ↓reduceIte, get?_cons, ih]
        by_cases hcb : c = b
        · simp [hcb, show a ≠ b from fun h => hac (h.trans hcb.symm)]
        · simp [hcb]

end AccountMap

end ShellSale
