import ShellSale.Proofs.Sale.Groups

/-!
## The accounts of a step

The keys of the sale are refused if two names stand for one account. So the batches of a step, one
for each name that occurs in it, are of different accounts.

* `SecretUris.injective_of_load`: a keyring that was loaded has an account of its own for each name.
* `Sale.nodup_batches`: the batches of a step are of different accounts.
-/

namespace ShellSale

/-! ### Keyrings -/

namespace Keyring

/-- No collision is found if no two of the names stand for one account. -/
theorem collisionAmong_eq_none_iff (k : Keyring) (seen rest : List AccountName) :
    k.collisionAmong seen rest = none ↔
      (∀ n ∈ rest, ∀ s ∈ seen, k.account s ≠ k.account n) ∧
        rest.Pairwise fun m n => k.account m ≠ k.account n := by
  induction rest generalizing seen with
  | nil => simp [collisionAmong]
  | cons name rest ih =>
    rw [List.forall_mem_cons, List.pairwise_cons]
    unfold collisionAmong
    split
    · rename_i first found
      have same := List.find?_some found
      refine iff_of_false (by simp) ?_
      rintro ⟨⟨apart, -⟩, -⟩
      exact apart first (List.mem_of_find?_eq_some found) (of_decide_eq_true same)
    · rename_i none
      -- the name collides with none seen, so it joins them
      have apart : ∀ s ∈ seen, k.account s ≠ k.account name := by
        intro s mem same
        exact List.find?_eq_none.mp none s mem (decide_eq_true same)
      rw [ih]
      constructor
      · rintro ⟨later, pairwise⟩
        refine ⟨⟨apart, ?_⟩, ?_, pairwise⟩
        · intro n mem s seen
          exact later n mem s (List.mem_append_left _ seen)
        · intro n mem
          exact later n mem name (List.mem_append_right _ List.mem_cons_self)
      · rintro ⟨⟨-, later⟩, first, pairwise⟩
        refine ⟨?_, pairwise⟩
        intro n mem s among
        rcases List.mem_append.mp among with among | among
        · exact later n mem s among
        · rw [List.mem_singleton.mp among]
          exact first n mem

/-- A keyring without a collision has an account of its own for each name. -/
theorem injective_of_collision? {k : Keyring} (h : k.collision? = none) :
    Function.Injective k.account := by
  obtain ⟨-, apart⟩ := (k.collisionAmong_eq_none_iff [] AccountName.all).mp h
  have all : ∀ n : AccountName, n ∈ AccountName.all := by
    intro n
    cases n <;> decide
  have nodup : (AccountName.all.map k.account).Nodup := List.pairwise_map.mpr apart
  intro m n same
  exact List.inj_on_of_nodup_map nodup (all m) (all n) same

end Keyring

/-- **Keys that can be used** are of different accounts. -/
theorem SecretUris.injective_of_load {u : SecretUris} {key : Derivation} {k : Keyring}
    (h : u.load key = .ok k) : Function.Injective k.account := by
  unfold load at h
  simp only [bind, Except.bind] at h
  repeat' split at h
  all_goals cases h
  apply Keyring.injective_of_collision?
  assumption

/-- Keys of accounts without a collision are loaded. -/
theorem SecretUris.load_eq_ok {u : SecretUris} {key : Derivation} {k : Keyring}
    (derived : ∀ name, key (u.uri name) = .ok (k.account name)) (apart : k.collision? = none) :
    u.load key = .ok k := by
  have same : ∀ k' : Keyring, (∀ name, k'.account name = k.account name) → k' = k := by
    rintro ⟨account⟩ all
    exact congrArg Keyring.mk (funext all)
  unfold load derive
  simp only [derived, bind, Except.bind]
  split
  · rename_i first second found
    rw [← same _ (by intro name; cases name <;> rfl)] at apart
    exact absurd (apart.symm.trans found) (by simp)
  · exact congrArg Except.ok (same _ (by intro name; cases name <;> rfl))

/-! ### Batches -/

/-- The batches of a step are of different accounts. -/
theorem Sale.nodup_batches {k : Keyring} (distinct : Function.Injective k.account)
    (calls : List (AccountName × Call)) : ((batches k calls).map (·.account)).Nodup :=
  nodup_accounts_batches fun _ _ _ _ same => distinct same

end ShellSale
