import Mathlib.Order.WellFounded
import ShellSale.Proofs.Sale.Accounts

/-!
## Loading the keys of the sale

What loading gives for all combinations of accounts and faults that the secret URIs may have. A
fault goes before every collision, as the accounts are compared only when all are derived.

* `Keyring.FirstRepeat`: which collision is reported; `Keyring.collision?_eq_some_iff`: that it is
  found.
* `SecretUris.load_cases`: what is loaded if all secret URIs give accounts, and if one does not.
* `SecretUris.load_iff` is the main result.
-/

namespace ShellSale

/-! ### The order of the names -/

namespace AccountName

theorem index_inj {m n : AccountName} (h : m.index = n.index) : m = n := by
  revert h
  cases m <;> cases n <;> decide

theorem holder_inj {m n : AccountName} (h : m.holder = n.holder) : m = n := by
  revert h
  cases m <;> cases n <;> decide

theorem idxOf_all (n : AccountName) : all.idxOf n = n.index := by
  cases n <;> decide

theorem mem_take_all_iff (m n : AccountName) : m ∈ all.take n.index ↔ m.index < n.index := by
  cases m <;> cases n <;> decide

theorem nodup_all : all.Nodup := by decide

/-- The names in front of a name are those of a smaller index. -/
theorem eq_take_of_all {n : AccountName} {front back : List AccountName}
    (h : all = front ++ n :: back) : front = all.take n.index := by
  have nodup := nodup_all
  rw [h, List.nodup_middle, List.nodup_cons] at nodup
  have absent : n ∉ front := fun mem => nodup.1 (List.mem_append_left back mem)
  have place := idxOf_all n
  rw [h, List.idxOf_append_of_notMem absent, List.idxOf_cons_self, Nat.add_zero] at place
  rw [h, ← place, List.take_left']
  rfl

theorem exists_all (n : AccountName) : ∃ back, all = all.take n.index ++ n :: back := by
  cases n <;> exact ⟨_, rfl⟩

end AccountName

/-! ### Collisions -/

namespace Keyring

variable {k : Keyring} {first second : AccountName}

theorem eq_of_apart {names : List AccountName}
    (apart : names.Pairwise fun m n => k.account m ≠ k.account n) {m n : AccountName}
    (mem : m ∈ names) (mem' : n ∈ names) (same : k.account m = k.account n) : m = n := by
  have nodup : (names.map k.account).Nodup := List.pairwise_map.mpr apart
  exact List.inj_on_of_nodup_map nodup mem mem' same

/-- The first collision among the names behind those seen, which have accounts of their own: the
second name of it is the first whose account a name before it has, and that is the first. -/
theorem collisionAmong_eq_some_iff {seen rest : List AccountName}
    (apart : seen.Pairwise fun m n => k.account m ≠ k.account n) :
    k.collisionAmong seen rest = some (first, second) ↔
      ∃ front back, rest = front ++ second :: back ∧ first ∈ seen ++ front ∧
        k.account first = k.account second ∧
        (seen ++ front).Pairwise fun m n => k.account m ≠ k.account n := by
  induction rest generalizing seen with
  | nil => simp [collisionAmong]
  | cons name rest ih =>
    unfold collisionAmong
    split
    -- either the name at hand collides with one seen, or it joins them
    · rename_i first' found
      have mem := List.mem_of_find?_eq_some found
      have decided := List.find?_some found
      have same : k.account first' = k.account name := of_decide_eq_true decided
      constructor
      · rintro ⟨⟩
        exact ⟨[], rest, rfl, by simpa using mem, same, by simpa using apart⟩
      · rintro ⟨front, back, eq, mem', same', apart'⟩
        cases front with
        | nil =>
          obtain ⟨rfl, -⟩ := List.cons.inj eq
          rw [List.append_nil] at mem'
          rw [eq_of_apart apart mem mem' (same.trans same'.symm)]
        | cons name' front =>
          obtain ⟨rfl, -⟩ := List.cons.inj eq
          exact absurd same ((List.pairwise_append.mp apart').2.2 first' mem _ List.mem_cons_self)
    · rename_i none
      -- no name seen collides with the one at hand, so it is seen from now on
      have fresh : ∀ s ∈ seen, k.account s ≠ k.account name := fun s mem same =>
        List.find?_eq_none.mp none s mem (decide_eq_true same)
      rw [ih (List.pairwise_append.mpr ⟨apart, List.pairwise_singleton _ _, by simpa using fresh⟩)]
      constructor
      · rintro ⟨front, back, rfl, mem, same, apart'⟩
        exact ⟨name :: front, back, rfl, by simpa using mem, same, by simpa using apart'⟩
      · rintro ⟨front, back, eq, mem, same, apart'⟩
        cases front with
        | nil =>
          obtain ⟨rfl, -⟩ := List.cons.inj eq
          exact absurd same (fresh first (by simpa using mem))
        | cons name' front =>
          obtain ⟨rfl, rfl⟩ := List.cons.inj eq
          exact ⟨front, back, rfl, by simpa using mem, same, by simpa using apart'⟩

/-- Whether a name is the first in order whose account a name before it has, and another is that
name. -/
structure FirstRepeat (k : Keyring) (first second : AccountName) : Prop where
  earlier : first.index < second.index
  only : ∀ m, m.index < second.index → (k.account m = k.account second ↔ m = first)
  least : ∀ m n, m.index < n.index → n.index < second.index → k.account m ≠ k.account n

theorem collision?_eq_some_iff :
    k.collision? = some (first, second) ↔ k.FirstRepeat first second := by
  rw [collision?, collisionAmong_eq_some_iff .nil]
  constructor
  · rintro ⟨front, back, all, mem, same, apart⟩
    obtain rfl := AccountName.eq_take_of_all all
    rw [List.nil_append] at mem apart
    have front (m : AccountName) := AccountName.mem_take_all_iff m second
    refine ⟨(front first).mp mem, fun m before => ⟨fun again => ?_, ?_⟩,
      fun m n less before same => ?_⟩
    -- the names in front of the second are told apart, so only one of them collides with it
    · exact eq_of_apart apart ((front m).mpr before) mem (again.trans same.symm)
    · rintro rfl
      exact same
    · have earlier := (front m).mpr (Nat.lt_trans less before)
      obtain rfl := eq_of_apart apart earlier ((front n).mpr before) same
      exact Nat.lt_irrefl _ less
  · rintro ⟨earlier, only, least⟩
    obtain ⟨back, all⟩ := AccountName.exists_all second
    refine ⟨_, back, all, (AccountName.mem_take_all_iff first second).mpr earlier,
      (only first earlier).mpr rfl, ?_⟩
    have nodup := AccountName.nodup_all.sublist (List.take_sublist second.index _)
    refine nodup.imp_of_mem fun {m n} mem mem' ne => ?_
    -- any two names before the second come in one order or the other
    rcases Nat.lt_trichotomy m.index n.index with less | eq | more
    · exact least m n less ((AccountName.mem_take_all_iff n second).mp mem')
    · exact absurd (AccountName.index_inj eq) ne
    · exact (least n m more ((AccountName.mem_take_all_iff m second).mp mem)).symm

theorem collision?_eq_none_iff : k.collision? = none ↔ Function.Injective k.account := by
  refine ⟨injective_of_collision?, fun inj => ?_⟩
  refine (k.collisionAmong_eq_none_iff [] AccountName.all).mpr ⟨by simp, ?_⟩
  exact AccountName.nodup_all.imp fun ne same => ne (inj same)

/-- A keyring, unless two names in it stand for one account. -/
def checked (k : Keyring) : Except KeyError Keyring :=
  match k.collision? with
  | some (first, second) => .error (.collision first second (k.account second))
  | none => .ok k

theorem checked_eq_ok_iff {k' : Keyring} :
    k.checked = .ok k' ↔ k = k' ∧ Function.Injective k.account := by
  rw [checked, ← collision?_eq_none_iff]
  cases k.collision? <;> simp

theorem checked_eq_error_iff {e : KeyError} :
    k.checked = .error e ↔ ∃ first second, k.FirstRepeat first second ∧
      e = .collision first second (k.account second) := by
  simp only [checked, ← collision?_eq_some_iff]
  cases k.collision? with
  | none => simp
  | some pair => simp [Prod.ext_iff, eq_comm]

end Keyring

/-! ### Loading -/

namespace SecretUris

variable {u : SecretUris} {key : Derivation} {k : Keyring}

/-- Whether all secret URIs give accounts, those of a keyring. -/
def Resolves (u : SecretUris) (key : Derivation) (k : Keyring) : Prop :=
  ∀ name, key (u.uri name) = .ok (k.account name)

/-- Whether the secret URI of a name has a fault, and those of the names before it give accounts. -/
structure FirstFault (u : SecretUris) (key : Derivation) (name : AccountName) (f : UriFault) :
    Prop where
  fault : key (u.uri name) = .error f
  before : ∀ earlier, earlier.index < name.index → ∃ a, key (u.uri earlier) = .ok a

theorem exists_resolves_or_firstFault (u : SecretUris) (key : Derivation) :
    (∃ k, u.Resolves key k) ∨ ∃ name f, u.FirstFault key name f := by
  by_cases all : ∀ name, ∃ a, key (u.uri name) = .ok a
  · choose account resolved using all
    exact Or.inl ⟨⟨account⟩, resolved⟩
  · -- of the names without an account, the first in order
    obtain ⟨name, failed, least⟩ := (measure AccountName.index).wf.has_min
      {name | ¬∃ a, key (u.uri name) = .ok a} (not_forall.mp all)
    refine Or.inr ⟨name, ?_⟩
    cases fault : key (u.uri name) with
    | ok a => exact absurd ⟨a, fault⟩ failed
    | error f => exact ⟨f, fault, fun earlier less => not_not.mp fun h => least earlier h less⟩

theorem load_of_resolves (h : u.Resolves key k) : u.load key = k.checked := by
  have same : ∀ k' : Keyring, (∀ name, k'.account name = k.account name) → k' = k := by
    rintro ⟨account⟩ all
    exact congrArg Keyring.mk (funext all)
  unfold load derive
  simp only [h _, bind, Except.bind]
  exact congrArg Keyring.checked (same _ (by intro name; cases name <;> rfl))

theorem load_of_firstFault {name : AccountName} {f : UriFault} (h : u.FirstFault key name f) :
    u.load key = .error (.fault name.holder f) := by
  obtain ⟨fault, before⟩ := h
  choose! account resolved using before
  cases name <;>
    simp (disch := decide) only [load, derive, fault, resolved, bind, Except.bind]

/-- Loading checks the keyring of the accounts, or reports the first fault. -/
theorem load_cases (u : SecretUris) (key : Derivation) :
    (∃ k, u.Resolves key k ∧ u.load key = k.checked) ∨
      ∃ name f, u.FirstFault key name f ∧ u.load key = .error (.fault name.holder f) := by
  rcases u.exists_resolves_or_firstFault key with ⟨k, resolves⟩ | ⟨name, f, faulty⟩
  · exact Or.inl ⟨k, resolves, load_of_resolves resolves⟩
  · exact Or.inr ⟨name, f, faulty, load_of_firstFault faulty⟩

/-- **What loading the keys gives.** The administrator's secret URI is the one under its name, else
the one under its older name, else the built-in one. The keys are loaded just if all secret URIs
give accounts and these are different, and then every name has the account of its own secret URI. A
fault is reported for the first name in order whose secret URI has one, whatever the accounts of the
others are. Otherwise the second of the two names reported is the first in order whose account
occurred before, and the first of them is the only one before it with that account. -/
theorem load_iff (u : SecretUris) (key : Derivation) :
    (u.uri .overlord = match u.overlord, u.overload with
      | some uri, _ => uri
      | none, some uri => uri
      | none, none => defaultOverlord) ∧
    (∀ k, u.load key = .ok k ↔ u.Resolves key k ∧ Function.Injective k.account) ∧
    (∀ name f, u.load key = .error (.fault name.holder f) ↔ u.FirstFault key name f) ∧
    (∀ first second a, u.load key = .error (.collision first second a) ↔
      ∃ k, u.Resolves key k ∧ k.FirstRepeat first second ∧ k.account second = a) ∧
    (∀ name f, key (u.uri name) = .error f →
      ∃ (first : AccountName) (g : UriFault), u.load key = .error (.fault first.holder g)) ∧
    ∀ k, u.Resolves key k → ¬Function.Injective k.account →
      ∃ first second, u.load key = .error (.collision first second (k.account second)) := by
  refine ⟨?_, fun k => ⟨fun loaded => ?_, ?_⟩,
    fun name f => ⟨fun refused => ?_, load_of_firstFault⟩,
    fun first second a => ⟨fun refused => ?_, ?_⟩, fun name f fault => ?_,
    fun k resolves again => ?_⟩
  · rw [uri]
    cases u.overlord <;> cases u.overload <;> rfl
  -- a keyring, the first fault and the first collision exclude one another, and there is one of
  -- them
  · rcases u.load_cases key with ⟨k', resolves, eq⟩ | ⟨name, f, -, eq⟩
    · obtain ⟨rfl, inj⟩ := Keyring.checked_eq_ok_iff.mp (eq.symm.trans loaded)
      exact ⟨resolves, inj⟩
    · cases eq.symm.trans loaded
  · rintro ⟨resolves, inj⟩
    rw [load_of_resolves resolves]
    exact Keyring.checked_eq_ok_iff.mpr ⟨rfl, inj⟩
  · rcases u.load_cases key with ⟨k, -, eq⟩ | ⟨name', f', faulty, eq⟩
    · obtain ⟨_, _, -, ⟨⟩⟩ := Keyring.checked_eq_error_iff.mp (eq.symm.trans refused)
    · obtain ⟨same, rfl⟩ := KeyError.fault.inj (Except.error.inj (eq.symm.trans refused))
      exact AccountName.holder_inj same ▸ faulty
  · rcases u.load_cases key with ⟨k, resolves, eq⟩ | ⟨name, f, -, eq⟩
    · obtain ⟨_, _, repeated, ⟨⟩⟩ := Keyring.checked_eq_error_iff.mp (eq.symm.trans refused)
      exact ⟨k, resolves, repeated, rfl⟩
    · cases eq.symm.trans refused
  · rintro ⟨k, resolves, repeated, rfl⟩
    rw [load_of_resolves resolves]
    exact Keyring.checked_eq_error_iff.mpr ⟨first, second, repeated, rfl⟩
  · rcases u.load_cases key with ⟨k, resolves, -⟩ | ⟨name', f', -, eq⟩
    · cases fault.symm.trans (resolves name)
    · exact ⟨name', f', eq⟩
  · cases checked : k.checked with
    | ok k' => exact absurd (Keyring.checked_eq_ok_iff.mp checked).2 again
    | error e =>
      obtain ⟨first, second, -, rfl⟩ := Keyring.checked_eq_error_iff.mp checked
      exact ⟨first, second, (load_of_resolves resolves).trans checked⟩

example : SecretUris.load { david := "//Bob", eve := "//Alice" } .development =
    .error (.collision .bob .david
      (.ofNat 0x8eaf04151687736326c9fea17e25fc5287613693c912909cb226aa4794f26a48)) := by rfl

example : SecretUris.load { david := "//Bob", overlord := some "no phrase" } .development =
    .error (.fault "overlord" (.wordCount 2)) := by rfl

end SecretUris

end ShellSale
