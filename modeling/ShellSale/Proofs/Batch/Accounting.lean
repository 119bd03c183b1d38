import Mathlib.Data.List.Forall2
import ShellSale.Proofs.Batch.Gathering
import ShellSale.Proofs.Batch.Numbering
import ShellSale.Proofs.Batch.Reporting

/-!
## What runs of batches report

A task among others does what its batch is about: the work of others goes past it. So when a run of
batches of different accounts has ended, each batch is accounted for, by its outcomes or by a hard
error, and the results have one entry for each.

* `SignerTask.Faithful` ties a task among others to its batch. Its own steps keep this
  (`Faithful.resume`), and the work of others goes past it (`Faithful.beside`).
* `accounted_of_runs`: what became of each batch, whatever the order of the rounds.
* `reports_runAcross`: what a run of batches reports.
-/

namespace ShellSale

variable {σ κ : Type} {client : Client σ κ}

/-! ### Worlds that others work on -/

namespace World

variable {a b : AccountId} {w w' w'' : World σ κ}

theorem Step.sentBy_of_ne (h : Step client b w w') (ne : a ≠ b) : w'.sentBy a = w.sentBy a := by
  cases h with
  | ask => rfl
  | claim => rfl
  | release => rfl
  | tell notices => exact sentBy_of_sent (sent_notifyAt w notices) a
  | handOver nonce call =>
    have other : ¬(b = a) := ne.symm
    simp [sentBy, sent_handOver, other]

/-- What goes past an account: no time passes, and no call of the account is handed over. -/
structure Beside (client : Client σ κ) (a : AccountId) (w w' : World σ κ) : Prop where
  course : Course client w w'
  now : w'.now = w.now
  sentBy : w'.sentBy a = w.sentBy a

theorem Beside.refl (client : Client σ κ) (a : AccountId) (w : World σ κ) : Beside client a w w :=
  ⟨.refl, rfl, rfl⟩

theorem Beside.trans (h : Beside client a w w') (h' : Beside client a w' w'') :
    Beside client a w w'' :=
  ⟨h.course.trans h'.course, h'.now.trans h.now, h'.sentBy.trans h.sentBy⟩

/-- Work for another account goes past an account. -/
theorem Steps.beside (steps : Steps client b w w') (ne : a ≠ b) : Beside client a w w' := by
  induction steps with
  | refl => exact .refl client a w
  | tail _ step ih => exact ih.trans ⟨.single (.work step), step.now_eq, step.sentBy_of_ne ne⟩

end World

/-! ### Results of tasks -/

/-- What a batch has done whose task has ended with a result. A task with outcomes reports them. A
hard error says that nothing was handed over, or that the nonces of the account ran out. -/
def Batch.Accounted (client : Client σ κ) (mode : Mode) (options : Options) (b : Batch κ)
    (w w' : World σ κ) : Except PipelineError (List Outcome) → Prop
  | .ok outcomes => ∃ first subs, b.Report client mode options first w w' subs outcomes
  | .error _ => w'.sentBy b.account = w.sentBy b.account ∨
    ∃ first count, NonceCursor.last ≤ first + count ∧ w'.sentBy b.account =
      w.sentBy b.account ++ Sent.series b.account first (b.calls.take count)

theorem Batch.Accounted.mono {mode : Mode} {options : Options} {b : Batch κ} {w w' w'' : World σ κ}
    {result : Except PipelineError (List Outcome)} (h : b.Accounted client mode options w w' result)
    (course : World.Course client w' w'') (sentBy : w''.sentBy b.account = w'.sentBy b.account) :
    b.Accounted client mode options w w'' result := by
  cases result with
  | ok outcomes =>
    obtain ⟨first, subs, report⟩ := h
    exact ⟨first, subs, report.mono course sentBy⟩
  | error e =>
    unfold Accounted at h ⊢
    rw [sentBy]
    exact h

/-- A batch has done the same since an earlier world, if what came in between went past it. -/
theorem Batch.Accounted.since {mode : Mode} {options : Options} {b : Batch κ} {w₀ w w' : World σ κ}
    {result : Except PipelineError (List Outcome)} (h : b.Accounted client mode options w w' result)
    (before : World.Beside client b.account w₀ w) :
    b.Accounted client mode options w₀ w' result := by
  cases result with
  | ok outcomes =>
    obtain ⟨first, subs, report⟩ := h
    exact ⟨first, subs, report.since before.course before.now before.sentBy⟩
  | error e =>
    unfold Accounted at h ⊢
    rw [← before.sentBy]
    exact h

namespace SignerTask

variable {mode : Mode} {options : Options} {b : Batch κ} {w₀ w w' : World σ κ}

/-! ### Tasks among others -/

/-- What ties the state of a task to its batch, since the world `w₀`: the batch is on its way and
its wait is not over, or it has ended and is accounted for. -/
inductive Faithful (client : Client σ κ) (mode : Mode) (options : Options) (b : Batch κ)
    (w₀ w : World σ κ) : State κ → Prop where
  | running {t : Tracker} {issued : List Submission} {last : Nat} {r : Runner κ}
    (account : t.account = b.account)
    (progress : Runner.Progress client (b.order mode options t w₀) w₀ issued last w r)
    (le_wake : ∀ nonce outcome wake, r.stage = .waiting nonce outcome wake → w.now ≤ wake) :
    Faithful client mode options b w₀ w (.running r)
  | ended {result : Except PipelineError (List Outcome)}
    (accounted : b.Accounted client mode options w₀ w result) :
    Faithful client mode options b w₀ w (.ended result)

/-- What goes past an account leaves its task tied to its batch, as long as the wait of the task is
not over. -/
theorem Faithful.mono {s : State κ} (h : Faithful client mode options b w₀ w s)
    (course : World.Course client w w') (sentBy : w'.sentBy b.account = w.sentBy b.account)
    (le_wake : ∀ r nonce outcome wake, s = .running r → r.stage = .waiting nonce outcome wake →
      w.now ≤ wake → w'.now ≤ wake) : Faithful client mode options b w₀ w' s := by
  cases h with
  | running account progress early =>
    refine .running account (progress.mono course ?_) ?_
    · rw [← account] at sentBy
      exact sentBy
    · intro nonce outcome wake stage
      exact le_wake _ nonce outcome wake rfl stage (early nonce outcome wake stage)
  | ended accounted => exact .ended (accounted.mono course sentBy)

/-- **Work for others** goes past a task. -/
theorem Faithful.beside {s : State κ} (h : Faithful client mode options b w₀ w s)
    (beside : World.Beside client b.account w w') : Faithful client mode options b w₀ w' s :=
  h.mono beside.course beside.sentBy fun _ _ _ _ _ _ early => beside.now.trans_le early

theorem Faithful.account_of_running {r : Runner κ}
    (h : Faithful client mode options b w₀ w (.running r)) : r.tracker.account = b.account := by
  cases h with
  | running account progress early => exact progress.paused.inv.account.trans account

/-- The wait of a task that is tied to its batch is not over. -/
theorem Faithful.le_wake {t : SignerTask κ} (h : Faithful client mode options b w₀ w t.state)
    {wake : Nat} (due : t.wake? = some wake) : w.now ≤ wake := by
  obtain ⟨r, nonce, outcome, running, stage⟩ := exists_waiting_of_wake? due
  rw [running] at h
  cases h with
  | running account progress early => exact early nonce outcome wake stage

/-- A runner on its way leaves its task tied to its batch, whether it waits or has ended. -/
theorem faithful_conclude {t : Tracker} {issued : List Submission} {r : Runner κ}
    (account : t.account = b.account)
    (progress : Runner.Progress client (b.order mode options t w₀) w₀ issued w.now w r)
    (le_wake : ∀ nonce outcome wake, r.stage = .waiting nonce outcome wake → w.now ≤ wake)
    (number : Nat) :
    Faithful client mode options b w₀ (conclude w b.account number r).1
      (conclude w b.account number r).2.state := by
  have course := (steps_conclude client w b.account number r).course
  have sentBy := World.sentBy_of_sent (sent_conclude w b.account number r) b.account
  cases stage : r.stage with
  | waiting nonce outcome wake =>
    simp only [conclude, stage]
    exact .running account progress le_wake
  | finished =>
    have report := (progress.report account stage).mono course sentBy
    simp only [conclude, stage] at report ⊢
    exact .ended ⟨_, _, report⟩
  | overflowed =>
    have full := progress.full stage
    have series := progress.paused.inv.sentBy
    rw [progress.paused.inv.cursor] at full
    simp only [Batch.order, Runner.Order.series, account] at full series
    rw [← sentBy] at series
    simp only [conclude, stage] at series ⊢
    exact .ended (Or.inr ⟨t.cursor.next, issued.length, full, series⟩)

/-- **A step of a task** leaves it tied to its batch. -/
theorem Faithful.resume {t : SignerTask κ} (h : Faithful client mode options b w₀ w t.state)
    (account : t.account = b.account) {wake : Nat} (due : t.wake? = some wake)
    (now : w.now = wake) :
    Faithful client mode options b w₀ (t.resume client w).1 (t.resume client w).2.state := by
  obtain ⟨r, nonce, outcome, running, stage⟩ := exists_waiting_of_wake? due
  rw [running] at h
  cases h with
  | running mine progress early =>
    obtain ⟨issued, progress⟩ := progress.collect stage now
    simp only [SignerTask.resume, running, stage, account]
    exact faithful_conclude mine progress (fun _ _ _ => Runner.le_wake_collect) t.number

/-- A task is tied to its batch from its launch on. -/
theorem faithful_launch (mode : Mode) (options : Options) (number : Nat)
    (beside : World.Beside client b.account w₀ w) :
    Faithful client mode options b w₀ (launch client mode options w number b).1
      (launch client mode options w number b).2.state := by
  have opened := Tracker.steps_open client w b.account
  have sent := Tracker.sent_open client w b.account
  unfold launch
  cases result : Tracker.open_ client w b.account with
  | mk answer w' =>
    rw [result] at opened sent
    have course := beside.course.trans opened.course
    have sentBy := (World.sentBy_of_sent sent b.account).trans beside.sentBy
    cases answer with
    | error e => exact .ended (Or.inl sentBy)
    | ok t =>
      obtain ⟨-, -, account, -, now⟩ := Tracker.open_eq_ok result
      obtain ⟨issued, progress⟩ :=
        Runner.exists_progress_start client w' t mode options b.calls course
      have order : b.order mode options t w₀ =
          ⟨mode, options, b.calls, t, w'.now, w'.sentBy t.account⟩ := by
        rw [Batch.order, now, account, sentBy, beside.now]
      rw [← order] at progress
      exact faithful_conclude account progress (fun _ _ _ => Runner.le_wake_proceed) number

/-- Spawning a task ties it to its batch. -/
theorem faithful_spawn (mode : Mode) (options : Options) (number : Nat)
    (beside : World.Beside client b.account w₀ w) :
    Faithful client mode options b w₀ (spawn client mode options w number b).1
      (spawn client mode options w number b).2.state := by
  let P (w' : World σ κ) (t : SignerTask κ) : Prop :=
    t.account = b.account ∧ Faithful client mode options b w₀ w' t.state
  have spawned : P (spawn client mode options w number b).1
      (spawn client mode options w number b).2 := by
    refine spawn_induction (P := P)
      ⟨account_launch .., faithful_launch mode options number beside⟩ ?_
    rintro w' t wake due passed ⟨account, faithful⟩
    have now : w'.now = wake := le_antisymm (faithful.le_wake due) passed
    exact ⟨(account_resume client w' t).trans account, faithful.resume account due now⟩
  exact spawned.2

/-! ### Sets of tasks -/

/-- Tasks of different accounts, each of which is tied to its batch. -/
structure AllFaithful (client : Client σ κ) (mode : Mode) (options : Options)
    (batches : List (Batch κ)) (w₀ w : World σ κ) (tasks : List (SignerTask κ)) : Prop where
  distinct : (batches.map (·.account)).Nodup
  accounts : tasks.map (·.account) = batches.map (·.account)
  each : ∀ (i : Nat) b t, batches[i]? = some b → tasks[i]? = some t →
    t.account = b.account ∧ Faithful client mode options b w₀ w t.state

variable {batches : List (Batch κ)} {tasks : List (SignerTask κ)}

/-- Time passes to the end of the next wait. -/
theorem AllFaithful.later (h : AllFaithful client mode options batches w₀ w tasks) {wake : Nat}
    (next : nextWake tasks = some wake) :
    AllFaithful client mode options batches w₀ { w with now := max w.now wake } tasks ∧
      max w.now wake = wake := by
  obtain ⟨mem, least⟩ := List.min?_eq_some_iff.mp next
  have now : max w.now wake = wake := by
    obtain ⟨t, listed, due⟩ := List.mem_filterMap.mp mem
    obtain ⟨i, found⟩ := List.mem_iff_getElem?.mp listed
    obtain ⟨b, given, -⟩ := exists_getElem?_of_map_eq h.accounts found
    exact max_eq_right ((h.each i b t given found).2.le_wake due)
  refine ⟨{ h with each := ?_ }, now⟩
  intro i b t given found
  obtain ⟨account, faithful⟩ := h.each i b t given found
  refine ⟨account, faithful.mono (.single (.pass wake)) rfl ?_⟩
  intro r nonce outcome wake' running stage _
  -- no wait ends before the next one does
  have waits : t.wake? = some wake' := by
    rw [wake?, running]
    simp only [stage]
  exact now.trans_le (least wake' (List.mem_filterMap.mpr ⟨t, List.mem_of_getElem? found, waits⟩))

/-- The work of a task that is resumed goes past the others. -/
theorem AllFaithful.beside_resume (h : AllFaithful client mode options batches w₀ w tasks)
    {wake k i : Nat} {t t' : SignerTask κ} {b' : Batch κ} (found : tasks[k]? = some t)
    (waits : t.wake? = some wake) (other : i ≠ k) (given : batches[i]? = some b')
    (placed : tasks[i]? = some t') : World.Beside client b'.account w (t.resume client w).1 := by
  obtain ⟨b, given', -⟩ := exists_getElem?_of_map_eq h.accounts found
  obtain ⟨account, faithful⟩ := h.each k b t given' found
  obtain ⟨r, nonce, outcome, running, -⟩ := exists_waiting_of_wake? waits
  have work := steps_resume client w running
  rw [running] at faithful
  rw [faithful.account_of_running, ← account] at work
  have distinct := h.distinct
  rw [← h.accounts] at distinct
  have ne := account_ne distinct placed found other
  rw [(h.each i b' t' given placed).1] at ne
  exact work.beside ne

/-- Resuming a task leaves each of them tied to its batch. -/
theorem AllFaithful.resume (h : AllFaithful client mode options batches w₀ w tasks)
    {wake k : Nat} {t : SignerTask κ} (found : tasks[k]? = some t) (waits : t.wake? = some wake)
    (now : w.now = wake) :
    AllFaithful client mode options batches w₀ (t.resume client w).1
      (tasks.set k (t.resume client w).2) := by
  refine { h with accounts := (accounts_set client w found).trans h.accounts, each := ?_ }
  intro i b t' given placed
  rcases placed_set found placed with ⟨rfl, rfl⟩ | ⟨other, placed⟩
  · obtain ⟨account, faithful⟩ := h.each i b t given found
    exact ⟨(account_resume client w t).trans account, faithful.resume account waits now⟩
  · obtain ⟨account, faithful⟩ := h.each i b t' given placed
    exact ⟨account, faithful.beside (h.beside_resume found waits other given placed)⟩

/-- A round leaves each task tied to its batch. -/
theorem AllFaithful.round {w' : World σ κ} {tasks' : List (SignerTask κ)}
    (round : Round client w tasks w' tasks')
    (h : AllFaithful client mode options batches w₀ w tasks) :
    AllFaithful client mode options batches w₀ w' tasks' := by
  cases round with
  | resume next found due =>
    obtain ⟨later, now⟩ := h.later next
    exact later.resume found due now

theorem beside_launchAll (client : Client σ κ) (mode : Mode) (options : Options) (w : World σ κ)
    (number : Nat) {a : AccountId} (others : a ∉ batches.map (·.account)) :
    World.Beside client a w (launchAll client mode options w number batches).1 := by
  induction batches generalizing w number with
  | nil => exact .refl client a w
  | cons b rest ih =>
    rw [List.map_cons, List.mem_cons, not_or] at others
    exact ((steps_spawn client mode options w number b).beside others.1).trans (ih _ _ others.2)

/-- Tasks are tied to their batches from their launch on. -/
theorem allFaithful_launchAll (mode : Mode) (options : Options) (number : Nat)
    (distinct : (batches.map (·.account)).Nodup)
    (beside : ∀ b ∈ batches, World.Beside client b.account w₀ w) :
    AllFaithful client mode options batches w₀ (launchAll client mode options w number batches).1
      (launchAll client mode options w number batches).2 := by
  refine { distinct, accounts := accounts_launchAll .., each := ?_ }
  induction batches generalizing w number with
  | nil => simp
  | cons b rest ih =>
    rw [List.map_cons, List.nodup_cons] at distinct
    rw [List.forall_mem_cons] at beside
    have work := steps_spawn client mode options w number b
    intro i b' t given found
    cases i with
    | zero =>
      obtain rfl := Option.some.inj given
      obtain rfl := Option.some.inj found
      exact ⟨account_spawn .., (faithful_spawn mode options number beside.1).beside
        (beside_launchAll client mode options _ _ distinct.1)⟩
    | succ i =>
      refine ih (number + 1) distinct.2 ?_ i b' t given found
      intro b'' mem
      have ne : b''.account ≠ b.account := fun same => distinct.1 (same ▸ List.mem_map_of_mem mem)
      exact (beside.2 b'' mem).trans (work.beside ne)

end SignerTask

theorem beside_number (client : Client σ κ) (a : AccountId) (w : World σ κ) (count : Nat) :
    World.Beside client a w { w with tasks := w.tasks + count } :=
  ⟨.single (.number count), rfl, rfl⟩

section

variable {w : World σ κ} {batches : List (Batch κ)} {mode : Mode} {options : Options}
  {q : World σ κ × List (SignerTask κ)}

/-- **The tasks of a run of batches** of different accounts are tied to their batches at any point
of any order. -/
theorem allFaithful_of_rounds (distinct : (batches.map (·.account)).Nodup)
    (rounds : SignerTask.Rounds client (launchedOf client w batches mode options) q) :
    SignerTask.AllFaithful client mode options batches w q.1 q.2 :=
  rounds.keep SignerTask.AllFaithful.round
    (SignerTask.allFaithful_launchAll mode options (w.tasks + 1) distinct
      fun b _ => beside_number client b.account w _)

/-- When the run has ended, each batch is accounted for. -/
theorem accounted_of_runs (distinct : (batches.map (·.account)).Nodup)
    (runs : SignerTask.Runs client (launchedOf client w batches mode options) q) {i : Nat}
    {b : Batch κ} {t : SignerTask κ} (given : batches[i]? = some b) (found : q.2[i]? = some t) :
    t.account = b.account ∧ ∃ result, t.state = .ended result ∧
      b.Accounted client mode options w q.1 result := by
  obtain ⟨account, faithful⟩ := (allFaithful_of_rounds distinct runs.rounds).each i b t given found
  obtain ⟨result, state⟩ := ended_of_runs runs t (List.mem_of_getElem? found)
  rw [state] at faithful
  cases faithful with
  | ended accounted => exact ⟨account, result, state, accounted⟩

end

theorem world_runAcross (client : Client σ κ) (w : World σ κ) (batches : List (Batch κ))
    (mode : Mode) (options : Options) :
    (runAcross client w batches mode options).2 =
      (SignerTask.join (tasksOf client w batches mode options).1 [] none
        (tasksOf client w batches mode options).2).1 := by
  rw [runAcross_eq]
  rcases SignerTask.join (tasksOf client w batches mode options).1 [] none
    (tasksOf client w batches mode options).2 with ⟨w₁, outcomes, _ | e⟩
  · rfl
  · rfl

/-- The entries of tasks that have all ended with outcomes. -/
theorem SignerTask.forall₂_results {R : Batch κ → AccountId × List Outcome → Prop}
    {batches : List (Batch κ)} {tasks : List (SignerTask κ)}
    (h : List.Forall₂ (fun b t => ∃ outcomes, t.state = .ended (.ok outcomes) ∧
      R b (t.account, outcomes)) batches tasks) :
    List.Forall₂ R batches (tasks.filterMap result?) := by
  induction h with
  | nil => exact .nil
  | @cons b t rest others first _ ih =>
    obtain ⟨outcomes, state, related⟩ := first
    have gives : t.result? = some (t.account, outcomes) := by rw [result?, state]
    rw [List.filterMap_cons_some gives]
    exact .cons related ih

/-- **What a run of batches reports**: one entry for each batch, in the order of the accounts, with
the outcomes that the batch reports. -/
theorem reports_runAcross (client : Client σ κ) (w : World σ κ) {batches : List (Batch κ)}
    (mode : Mode) (options : Options) (distinct : (batches.map (·.account)).Nodup)
    {results : AccountMap (List Outcome)}
    (ok : (runAcross client w batches mode options).1 = .ok results) :
    results.Ascending ∧ ∃ entries, results.Perm entries ∧
      List.Forall₂ (fun b entry => entry.1 = b.account ∧ ∃ first subs,
        b.Report client mode options first w (runAcross client w batches mode options).2 subs
          entry.2) batches entries := by
  let p := tasksOf client w batches mode options
  have accounts : p.2.map (·.account) = batches.map (·.account) := accounts_tasksOf ..
  obtain ⟨gathered, ascending, perm, answer, -⟩ := exists_gathered client w batches mode options
    (show (p.2.map (·.account)).Nodup from accounts ▸ distinct)
  -- no task had a hard error, as there are results
  have fine : p.2.findSome? SignerTask.error? = none := by
    cases failed : p.2.findSome? SignerTask.error? with
    | none => rfl
    | some e =>
      rw [ok, failed] at answer
      cases answer
  rw [ok, fine] at answer
  obtain rfl := Except.ok.inj answer
  rw [List.findSome?_eq_none_iff] at fine
  refine ⟨ascending, _, perm, SignerTask.forall₂_results ?_⟩
  rw [List.forall₂_iff_get]
  refine ⟨by simpa using (congrArg List.length accounts).symm, ?_⟩
  intro i h h'
  obtain ⟨account, result, state, accounted⟩ :=
    accounted_of_runs distinct (runs_tasksOf client w batches mode options)
      (List.getElem?_eq_getElem h) (List.getElem?_eq_getElem h')
  cases result with
  | error e =>
    have failed : (p.2[i]).error? = some e := by rw [SignerTask.error?, state]
    rw [fine _ (List.getElem_mem h')] at failed
    cases failed
  | ok outcomes =>
    obtain ⟨first, subs, report⟩ := accounted
    rw [world_runAcross]
    exact ⟨outcomes, state, account, first, subs, report.mono
      (SignerTask.course_join client p.1 [] none p.2)
      (World.sentBy_of_sent (SignerTask.sent_join p.1 [] none p.2) _)⟩

end ShellSale
