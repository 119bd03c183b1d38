import Mathlib.Data.List.Forall2
import ShellSale.Proofs.Batch.Starting
import ShellSale.Proofs.Sale.Heeding

/-!
## What a step of the users reports

A step of the users that succeeds has one entry for each of its batches, in the order of the
accounts. The entry has the outcomes that the batch reports, and a batch that has handed over some
calls started at the nonce at which its tracker was opened.

* `forall_batch_iff`: the entries of a step by their batches.
* `Sale.users_of_ok`: a step that succeeds is a run of its batches and then tells the log.
* `Sale.mem_users_iff`: the entries of a step are what its tasks gave.
* `Sale.exists_starts_users` is the main result.
-/

namespace ShellSale

variable {σ : Type}

/-! ### Entries -/

/-- If lists are no longer than others, one by one, then all of them together are as long as all the
others exactly if each of them is. -/
theorem length_flatMap_of_forall₂ {α β γ δ : Type} {f : α → List γ} {g : β → List δ} {xs : List α}
    {ys : List β} (h : List.Forall₂ (fun x y => (f x).length ≤ (g y).length) xs ys) :
    (xs.flatMap f).length ≤ (ys.flatMap g).length ∧
      ((xs.flatMap f).length = (ys.flatMap g).length ↔
        List.Forall₂ (fun x y => (f x).length = (g y).length) xs ys) := by
  induction h with
  | nil => exact ⟨Nat.le_refl _, ⟨fun _ => .nil, fun _ => rfl⟩⟩
  | @cons x y xs ys le _ ih =>
    obtain ⟨below, same⟩ := ih
    rw [List.flatMap_cons, List.length_append, List.flatMap_cons, List.length_append,
      List.forall₂_cons, ← same]
    constructor
    · omega
    · constructor <;> omega

/-- In a list of one entry for each of some batches, the keys are the accounts of the batches. -/
theorem keys_eq_accounts {α κ : Type} {batches : List (Batch κ)} {entries : AccountMap α}
    (accounts : List.Forall₂ (fun entry b => entry.1 = b.account) entries batches) :
    entries.map (·.1) = batches.map (·.account) := by
  rw [← List.forall₂_eq_eq_eq, List.forall₂_map_left_iff, List.forall₂_map_right_iff]
  exact accounts

/-- In a list of one entry for each of some batches of different accounts, looking up the entry of
each batch comes to going through both lists. -/
theorem forall_batch_iff {α κ : Type} {batches : List (Batch κ)} {entries : AccountMap α}
    {P : α → Batch κ → Prop} (distinct : (batches.map (·.account)).Nodup)
    (accounts : List.Forall₂ (fun entry b => entry.1 = b.account) entries batches) :
    (∀ b ∈ batches, ∃ x, (b.account, x) ∈ entries ∧ P x b) ↔
      List.Forall₂ (fun entry b => P entry.2 b) entries batches := by
  induction accounts with
  | nil => exact ⟨fun _ => .nil, fun _ _ mem => by cases mem⟩
  | @cons entry b entries batches mine others ih =>
    obtain ⟨a, x⟩ := entry
    obtain rfl : a = b.account := mine
    rw [List.map_cons, List.nodup_cons] at distinct
    -- no other entry is of the account of the first batch
    have keys := keys_eq_accounts others
    have fresh : ∀ y, (b.account, y) ∉ entries := fun y mem =>
      distinct.1 (keys ▸ List.mem_map_of_mem (f := (·.1)) mem)
    rw [List.forall_mem_cons, List.forall₂_cons, ← ih distinct.2]
    refine and_congr ?_ (forall₂_congr ?_)
    · simp [fresh]
    · intro b' mem
      have other : b'.account ≠ b.account := fun same =>
        distinct.1 (same ▸ List.mem_map_of_mem mem)
      simp [other]

/-! ### Whole steps -/

namespace Sale

variable {sale : Sale σ} {w : World σ Call} {step : String} {mode : Mode}
  {calls : List (AccountName × Call)} {outcomes : AccountMap (List Outcome)}

/-- A step of the users that succeeds tells the log what its batches answer, in the order of the
accounts, and ends with its line. -/
theorem users_of_ok (ok : (sale.users w step mode calls).1 = .ok outcomes) :
    ∃ w', runAcross sale.client (say w .info ("👥 " ++ step ++ " for " ++
        toString (batches sale.keyring calls).length ++ " accounts..."))
        (batches sale.keyring calls) mode sale.options = (.ok outcomes, w') ∧
      (sale.users w step mode calls).2 =
        (remarks step outcomes ++ [verdict step (rejected outcomes)]).foldl
          (fun w l => w.record (.line l)) w' := by
  rcases ran : runAcross sale.client (say w .info ("👥 " ++ step ++ " for " ++
    toString (batches sale.keyring calls).length ++ " accounts...")) (batches sale.keyring calls)
    mode sale.options with ⟨e | results, w'⟩
  · simp only [users, ran] at ok
    cases ok
  · simp only [users, ran] at ok
    obtain rfl := Except.ok.inj ok
    refine ⟨w', rfl, ?_⟩
    simp only [users, ran]

/-- A step that succeeds is a run of its batches, with nothing but lines for the log before and
after. -/
theorem exists_run_users (ok : (sale.users w step mode calls).1 = .ok outcomes) :
    ∃ w₀ w', (∀ a, World.Beside sale.client a w w₀) ∧
      runAcross sale.client w₀ (batches sale.keyring calls) mode sale.options = (.ok outcomes, w') ∧
      World.Course sale.client w' (sale.users w step mode calls).2 ∧
      (sale.users w step mode calls).2.sent = w'.sent := by
  obtain ⟨w', answer, world⟩ := users_of_ok ok
  rw [world]
  exact ⟨_, w', fun a => beside_say sale.client a w .., answer, course_lines .., sent_lines ..⟩

/-- The entries of a step are what its tasks gave. -/
theorem mem_users_iff (distinct : ((batches sale.keyring calls).map (·.account)).Nodup)
    (ok : (sale.users w step mode calls).1 = .ok outcomes) (entry : AccountId × List Outcome) :
    entry ∈ outcomes ↔ ∃ t ∈ (sale.userTasks w step mode calls).2, t.result? = some entry := by
  obtain ⟨w', answer, -⟩ := users_of_ok ok
  have accounts : (sale.userTasks w step mode calls).2.map (·.account) =
      (batches sale.keyring calls).map (·.account) := accounts_tasksOf ..
  obtain ⟨results, -, perm, gathered, -⟩ := exists_gathered sale.client _
    (batches sale.keyring calls) mode sale.options (accounts ▸ distinct)
  rw [answer] at gathered
  split at gathered
  · cases gathered
  · obtain rfl := Except.ok.inj gathered
    rw [perm.mem_iff, List.mem_filterMap]
    rfl

/-- **What the outcomes of a step report**: one entry for each batch, with the outcomes that the
batch reports. A batch that has handed over some calls started at the nonce at which its tracker was
opened. -/
theorem exists_starts_users (distinct : ((batches sale.keyring calls).map (·.account)).Nodup)
    (ok : (sale.users w step mode calls).1 = .ok outcomes) :
    outcomes.Ascending ∧ ∃ entries, outcomes.Perm entries ∧
      List.Forall₂ (fun b entry => entry.1 = b.account ∧
        ∃ first subs, b.Report sale.client mode sale.options first w
          (sale.users w step mode calls).2 subs entry.2 ∧
          (subs ≠ [] → World.Opens sale.client w (sale.users w step mode calls).2 b.account first))
        (batches sale.keyring calls) entries := by
  obtain ⟨w₀, w', before, answer, course, sent⟩ := exists_run_users ok
  obtain ⟨ascending, entries, perm, reports⟩ := reports_runAcross sale.client w₀ mode sale.options
    distinct (congrArg Prod.fst answer)
  have given := (List.forall₂_and_left _ _).mpr ⟨fun b mem => mem, reports⟩
  refine ⟨ascending, entries, perm, given.imp ?_⟩
  rintro b entry ⟨mem, account, first, subs, report⟩
  have said := before b.account
  have opens := report.opens distinct mem
  rw [answer] at report opens
  refine ⟨account, first, subs, ?_, ?_⟩
  · exact (report.since said.course said.now said.sentBy).mono course (World.sentBy_of_sent sent _)
  · exact fun some => (opens some).since said course

/-- A step that succeeds has handed over nothing for an account that has no batch. -/
theorem sentBy_users_of_not_mem (distinct : ((batches sale.keyring calls).map (·.account)).Nodup)
    (ok : (sale.users w step mode calls).1 = .ok outcomes) {a : AccountId}
    (others : a ∉ (batches sale.keyring calls).map (·.account)) :
    (sale.users w step mode calls).2.sentBy a = w.sentBy a := by
  obtain ⟨w₀, w', before, answer, -, sent⟩ := exists_run_users ok
  have ran := sentBy_runAcross_of_not_mem sale.client w₀ mode sale.options distinct others
  rw [answer] at ran
  exact (World.sentBy_of_sent sent a).trans (ran.trans (before a).sentBy)

end Sale

end ShellSale
