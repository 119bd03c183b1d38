import Mathlib.Data.List.Induction
import Mathlib.Data.List.Nodup
import ShellSale.Sale.Step

/-!
## Groups

What the grouping of values by account comes to, without going through the values one after the
other: one group for each account that occurs, in the order in which the accounts first occur, with
just the values of the account in their order.

* `ownOf` is what belongs to an account.
* `groupByAccount_eq`: the groups without the loop, `Sale.batches_eq` the same for the batches of a
  step.
* `groupByAccount_ungrouped_eq_iff`: the groups that come back when their values are put one group
  after the other and grouped again.
* `groupByAccount_spec` is the main result.
* `length_flatMap_groupByAccount`, `Sale.length_flatMap_batches`: nothing is lost on the way.
-/

namespace ShellSale

variable {α : Type}

/-- What belongs to an account, in order. -/
def ownOf (name : AccountName) (items : List (AccountName × α)) : List α :=
  (items.filter fun item => item.1 = name).map (·.2)

theorem ownOf_append (name : AccountName) (items more : List (AccountName × α)) :
    ownOf name (items ++ more) = ownOf name items ++ ownOf name more := by
  rw [ownOf, List.filter_append, List.map_append, ← ownOf, ← ownOf]

theorem ownOf_concat (name : AccountName) (items : List (AccountName × α))
    (item : AccountName × α) :
    ownOf name (items ++ [item]) = ownOf name items ++ if item.1 = name then [item.2] else [] := by
  rw [ownOf_append]
  by_cases mine : item.1 = name
  · simp [ownOf, mine]
  · simp [ownOf, mine]

theorem ownOf_eq_nil_iff (name : AccountName) (items : List (AccountName × α)) :
    ownOf name items = [] ↔ name ∉ items.map (·.1) := by
  rw [ownOf, List.map_eq_nil_iff, List.filter_eq_nil_iff, List.mem_map]
  simp only [decide_eq_true_eq, not_exists, not_and]

/-- What belongs to an account, under its name. -/
theorem map_ownOf (name : AccountName) (items : List (AccountName × α)) :
    ((ownOf name items).map fun x => (name, x)) = items.filter fun item => item.1 = name := by
  rw [ownOf, List.map_map]
  refine (List.map_congr_left fun item mem => ?_).trans (List.map_id _)
  obtain rfl := of_decide_eq_true (List.mem_filter.mp mem).2
  rfl

/-! ### First occurrences -/

theorem eraseDups_concat (names : List AccountName) (name : AccountName) :
    (names ++ [name]).eraseDups =
      if name ∈ names then names.eraseDups else names.eraseDups ++ [name] := by
  rw [List.eraseDups_append]
  by_cases mem : name ∈ names
  · simp [mem, List.removeAll]
  · simp [mem, List.removeAll, List.eraseDups_cons]

/-- Without its repetitions a list of accounts is in the order of their first occurrences. -/
theorem pairwise_idxOf_eraseDups (names : List AccountName) :
    names.eraseDups.Pairwise fun m n => names.idxOf m < names.idxOf n := by
  induction names using List.reverseRecOn with
  | nil => exact .nil
  | append_singleton names name ih =>
    -- a name at the end moves no first occurrence before it
    have kept : names.eraseDups.Pairwise fun m n =>
        (names ++ [name]).idxOf m < (names ++ [name]).idxOf n := by
      refine ih.imp_of_mem fun hm hn earlier => ?_
      rwa [List.idxOf_append_of_mem (List.mem_eraseDups.mp hm),
        List.idxOf_append_of_mem (List.mem_eraseDups.mp hn)]
    rw [eraseDups_concat]
    split
    · exact kept
    · rename_i new
      refine List.pairwise_append.mpr ⟨kept, List.pairwise_singleton _ _, fun m hm n hn => ?_⟩
      obtain rfl := List.mem_singleton.mp hn
      have before := List.idxOf_lt_length_iff.mpr (List.mem_eraseDups.mp hm)
      rw [List.idxOf_append_of_mem (List.mem_eraseDups.mp hm), List.idxOf_append_of_notMem new]
      exact Nat.lt_add_right _ before

theorem nodup_eraseDups (names : List AccountName) : names.eraseDups.Nodup :=
  (pairwise_idxOf_eraseDups names).imp fun {_ _} earlier same =>
    Nat.ne_of_lt earlier (congrArg (names.idxOf ·) same)

/-! ### Groups -/

/-- Adding a value to groups that have one group for each of some accounts. -/
theorem addToGroups_map {names : List AccountName} (nodup : names.Nodup)
    {own : AccountName → List α} (name : AccountName) (x : α) (new : name ∉ names → own name = []) :
    addToGroups name x (names.map fun n => (n, own n)) =
      (if name ∈ names then names else names ++ [name]).map fun n =>
        (n, own n ++ if name = n then [x] else []) := by
  induction names with
  | nil => simp [addToGroups, new]
  | cons first rest ih =>
    rw [List.nodup_cons] at nodup
    rw [List.map_cons, addToGroups]
    by_cases same : first = name
    · subst same
      have others : ∀ n ∈ rest, (n, own n) = (n, own n ++ if first = n then [x] else []) := by
        intro n mem
        rw [if_neg fun (eq : first = n) => nodup.1 (eq ▸ mem), List.append_nil]
      simp [List.map_congr_left others]
    · have grouped := ih nodup.2 fun absent => new (by simp [Ne.symm same, absent])
      rw [if_neg same, grouped]
      by_cases mem : name ∈ rest
      · simp [mem, Ne.symm same]
      · simp [mem, Ne.symm same]

theorem groupByAccount_append (items more : List (AccountName × α)) :
    groupByAccount (items ++ more) =
      more.foldl (fun groups item => addToGroups item.1 item.2 groups) (groupByAccount items) :=
  List.foldl_append

/-- **What grouping comes to.** -/
theorem groupByAccount_eq (items : List (AccountName × α)) :
    groupByAccount items =
      (items.map (·.1)).eraseDups.map fun name => (name, ownOf name items) := by
  induction items using List.reverseRecOn with
  | nil => rfl
  | append_singleton items item ih =>
    rw [groupByAccount_append, ih, List.foldl_cons, List.foldl_nil,
      addToGroups_map (nodup_eraseDups _)]
    · rw [List.map_append, List.map_singleton, eraseDups_concat]
      simp only [List.mem_eraseDups]
      exact List.map_congr_left fun n _ => by rw [ownOf_concat]
    · intro absent
      rw [ownOf_eq_nil_iff]
      exact fun mem => absent (List.mem_eraseDups.mpr mem)

theorem keys_groupByAccount (items : List (AccountName × α)) :
    (groupByAccount items).map (·.1) = (items.map (·.1)).eraseDups := by
  rw [groupByAccount_eq, List.map_map]
  exact List.map_id _

/-- Every account has one group. -/
theorem nodup_keys_groupByAccount (items : List (AccountName × α)) :
    ((groupByAccount items).map (·.1)).Nodup :=
  keys_groupByAccount items ▸ nodup_eraseDups _

/-- The groups are those of the accounts that have something. -/
theorem mem_groupByAccount_iff {items : List (AccountName × α)} {name : AccountName}
    {xs : List α} : (name, xs) ∈ groupByAccount items ↔ xs = ownOf name items ∧ xs ≠ [] := by
  simp only [groupByAccount_eq, List.mem_map, List.mem_eraseDups, Prod.mk.injEq]
  constructor
  · rintro ⟨_, occurs, rfl, rfl⟩
    exact ⟨rfl, fun none => (ownOf_eq_nil_iff _ items).mp none (List.mem_map.mpr occurs)⟩
  · rintro ⟨rfl, filled⟩
    refine ⟨name, ?_, rfl, rfl⟩
    by_contra absent
    exact filled ((ownOf_eq_nil_iff name items).mpr fun occurs => absent (List.mem_map.mp occurs))

/-- Lists have the same groups just if their accounts occur in the same order, with the same
values. -/
theorem groupByAccount_eq_iff {items more : List (AccountName × α)} :
    groupByAccount items = groupByAccount more ↔
      (items.map (·.1)).eraseDups = (more.map (·.1)).eraseDups ∧
        ∀ name, ownOf name items = ownOf name more := by
  constructor
  · intro same
    refine ⟨by rw [← keys_groupByAccount, same, keys_groupByAccount], fun name => ?_⟩
    by_cases none : ownOf name items = []
    · by_contra differ
      have filled : ownOf name more ≠ [] := fun eq => differ (none.trans eq.symm)
      have listed := mem_groupByAccount_iff.mpr ⟨rfl, filled⟩
      exact differ (mem_groupByAccount_iff.mp (same ▸ listed)).1.symm
    · have listed := mem_groupByAccount_iff.mpr ⟨rfl, none⟩
      exact (mem_groupByAccount_iff.mp (same ▸ listed)).1
  · rintro ⟨order, own⟩
    rw [groupByAccount_eq, groupByAccount_eq, order]
    exact List.map_congr_left fun name _ => by rw [own]

/-! ### One group after the other -/

/-- The values of groups with their accounts, one group after the other. -/
def ungrouped (groups : List (AccountName × List α)) : List (AccountName × α) :=
  groups.flatMap fun group => group.2.map fun x => (group.1, x)

/-- Values that are sorted by some keys are all there. -/
theorem perm_flatMap_filter {β γ : Type} [DecidableEq γ] (key : β → γ) {keys : List γ}
    (nodup : keys.Nodup) {xs : List β} (covered : ∀ x ∈ xs, key x ∈ keys) :
    (keys.flatMap fun k => xs.filter fun x => key x = k).Perm xs := by
  induction keys generalizing xs with
  | nil =>
    obtain rfl := List.eq_nil_iff_forall_not_mem.mpr fun x mem => List.not_mem_nil (covered x mem)
    exact .refl _
  | cons k rest ih =>
    rw [List.nodup_cons] at nodup
    let others := xs.filter fun x => !decide (key x = k)
    have sorted : (rest.flatMap fun k' => xs.filter fun x => key x = k') =
        rest.flatMap fun k' => others.filter fun x => key x = k' := by
      refine List.flatMap_congr fun k' mem => ?_
      rw [List.filter_filter]
      refine List.filter_congr fun x _ => ?_
      have ne : k' ≠ k := fun same => nodup.1 (same ▸ mem)
      by_cases same : key x = k'
      · simp [same, ne]
      · simp [same]
    have left : ∀ x ∈ others, key x ∈ rest := by
      intro x mem
      obtain ⟨listed, other⟩ := List.mem_filter.mp mem
      exact (List.mem_cons.mp (covered x listed)).resolve_left (by simpa using other)
    rw [List.flatMap_cons, sorted]
    exact ((ih nodup.2 left).append_left _).trans (List.filter_append_perm _ xs)

/-- Grouping loses no value and makes none up. -/
theorem perm_ungrouped_groupByAccount (items : List (AccountName × α)) :
    (ungrouped (groupByAccount items)).Perm items := by
  rw [ungrouped, groupByAccount_eq, List.flatMap_map]
  simp only [map_ownOf]
  exact perm_flatMap_filter Prod.fst (nodup_eraseDups _) fun _ mem =>
    List.mem_eraseDups.mpr (List.mem_map_of_mem mem)

theorem length_flatMap_groupByAccount (items : List (AccountName × α)) :
    ((groupByAccount items).flatMap (·.2)).length = items.length := by
  rw [← (perm_ungrouped_groupByAccount items).length_eq]
  simp [ungrouped, List.length_flatMap]

/-- Groups of other accounts stay as they are. -/
theorem addToGroups_append {groups : List (AccountName × List α)} {name : AccountName}
    (absent : name ∉ groups.map (·.1)) (more : List (AccountName × List α)) (x : α) :
    addToGroups name x (groups ++ more) = groups ++ addToGroups name x more := by
  induction groups with
  | nil => rfl
  | cons group rest ih =>
    rw [List.map_cons, List.mem_cons, not_or] at absent
    rw [List.cons_append, addToGroups, if_neg (Ne.symm absent.1), ih absent.2, List.cons_append]

/-- Values of the account of the last group go there, all of them. -/
theorem foldl_addToGroups_last {groups : List (AccountName × List α)} {name : AccountName}
    (absent : name ∉ groups.map (·.1)) (xs more : List α) :
    (more.map fun x => (name, x)).foldl (fun groups item => addToGroups item.1 item.2 groups)
      (groups ++ [(name, xs)]) = groups ++ [(name, xs ++ more)] := by
  induction more generalizing xs with
  | nil => rw [List.append_nil]; rfl
  | cons x more ih =>
    rw [List.map_cons, List.foldl_cons, addToGroups_append absent, addToGroups, if_pos rfl, ih,
      List.append_assoc, List.singleton_append]

/-- Values of an account that has no group yet come into one of their own, at the end. -/
theorem foldl_addToGroups_new {groups : List (AccountName × List α)} {name : AccountName}
    (absent : name ∉ groups.map (·.1)) {xs : List α} (filled : xs ≠ []) :
    (xs.map fun x => (name, x)).foldl (fun groups item => addToGroups item.1 item.2 groups) groups =
      groups ++ [(name, xs)] := by
  -- the first value opens the group, the others follow it
  obtain ⟨x, more, rfl⟩ := List.exists_cons_of_ne_nil filled
  have opened : addToGroups name x groups = groups ++ [(name, [x])] := by
    simpa [addToGroups] using addToGroups_append absent [] x
  rw [List.map_cons, List.foldl_cons, opened, foldl_addToGroups_last absent,
    List.singleton_append]

/-- **Groups come back** when their values are put one group after the other and grouped again, just
if no account has two of them and none is empty. -/
theorem groupByAccount_ungrouped_eq_iff {groups : List (AccountName × List α)} :
    groupByAccount (ungrouped groups) = groups ↔
      (groups.map (·.1)).Nodup ∧ ∀ group ∈ groups, group.2 ≠ [] := by
  constructor
  · intro same
    refine ⟨same ▸ nodup_keys_groupByAccount (ungrouped groups), fun group mem => ?_⟩
    exact (mem_groupByAccount_iff.mp (same.symm ▸ mem)).2
  · rintro ⟨nodup, filled⟩
    induction groups using List.reverseRecOn with
    | nil => rfl
    | append_singleton groups group ih =>
      rw [List.map_append, List.nodup_append] at nodup
      rw [List.forall_mem_append] at filled
      have absent : group.1 ∉ groups.map (·.1) := fun mem =>
        nodup.2.2 group.1 mem group.1 (List.mem_singleton_self _) rfl
      have last := filled.2 group (List.mem_singleton_self _)
      rw [ungrouped, List.flatMap_append, ← ungrouped, List.flatMap_singleton,
        groupByAccount_append, ih nodup.1 filled.1, foldl_addToGroups_new absent last]

/-- **Grouping sorts values by account and keeps every order.** Each account that occurs has one
group, and no other account has any; the groups stand in the order in which their accounts first
occur. A group has just the values of its account in their order, and is not empty. One group after
the other, the values are those that were grouped, every account's in the order that they had, and
grouping them again gives the same groups. -/
theorem groupByAccount_spec (items : List (AccountName × α)) :
    let names := items.map (·.1)
    let groups := groupByAccount items
    (groups.map (·.1)).Nodup ∧ (∀ name, name ∈ groups.map (·.1) ↔ name ∈ names) ∧
      (groups.map (·.1)).Pairwise (fun m n => names.idxOf m < names.idxOf n) ∧
      (∀ group ∈ groups, group.2 = ownOf group.1 items ∧ group.2 ≠ []) ∧
      (ungrouped groups).Perm items ∧
      (∀ name, ownOf name (ungrouped groups) = ownOf name items) ∧
      groupByAccount (ungrouped groups) = groups := by
  intro names groups
  have keys : groups.map (·.1) = names.eraseDups := keys_groupByAccount items
  have nodup : (groups.map (·.1)).Nodup := nodup_keys_groupByAccount items
  have values : ∀ group ∈ groups, group.2 = ownOf group.1 items ∧ group.2 ≠ [] :=
    fun group mem => mem_groupByAccount_iff.mp mem
  have again : groupByAccount (ungrouped groups) = groups :=
    groupByAccount_ungrouped_eq_iff.mpr ⟨nodup, fun group mem => (values group mem).2⟩
  refine ⟨nodup, fun name => ?_, ?_, values, perm_ungrouped_groupByAccount items, ?_, again⟩
  · rw [keys, List.mem_eraseDups]
  · rw [keys]
    exact pairwise_idxOf_eraseDups names
  · -- lists with the same groups have the same values of each account, in the same order
    exact (groupByAccount_eq_iff.mp again).2

example : groupByAccount [(.bob, 1), (.alice, 2), (.bob, 3)] = [(.bob, [1, 3]), (.alice, [2])] := by
  decide

/-! ### Batches -/

namespace Sale

/-- The batches of a step: one for each account that occurs, with the calls of the account. -/
theorem batches_eq (k : Keyring) (calls : List (AccountName × Call)) :
    batches k calls =
      (calls.map (·.1)).eraseDups.map fun name => ⟨k.account name, ownOf name calls⟩ := by
  rw [batches, groupByAccount_eq, List.map_map]
  rfl

/-- The batches of a step are those of the accounts that occur in it. -/
theorem mem_batches_iff {k : Keyring} {calls : List (AccountName × Call)} {b : Batch Call} :
    b ∈ batches k calls ↔
      ∃ name ∈ calls.map (·.1), b = ⟨k.account name, ownOf name calls⟩ := by
  rw [batches_eq, List.mem_map]
  simp only [List.mem_eraseDups, eq_comm]

/-- The batches of a step have all its calls. -/
theorem length_flatMap_batches (k : Keyring) (calls : List (AccountName × Call)) :
    ((batches k calls).flatMap (·.calls)).length = calls.length := by
  rw [batches, List.flatMap_map]
  exact length_flatMap_groupByAccount calls

/-- The batches of a step are of different accounts if those are that occur in it. -/
theorem nodup_accounts_batches {k : Keyring} {calls : List (AccountName × Call)}
    (apart : ∀ m ∈ calls.map (·.1), ∀ n ∈ calls.map (·.1), k.account m = k.account n → m = n) :
    ((batches k calls).map (·.account)).Nodup := by
  rw [batches_eq, List.map_map]
  refine (nodup_eraseDups _).map_on ?_
  intro m hm n hn
  exact apart m (List.mem_eraseDups.mp hm) n (List.mem_eraseDups.mp hn)

end Sale

end ShellSale
