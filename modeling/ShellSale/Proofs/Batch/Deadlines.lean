import ShellSale.Proofs.Batch.Accounting
import ShellSale.Proofs.Batch.Heeding

/-!
## How long batches take

Whatever the node reports, and if it never reports anything, a wait ends by its timeout. A batch
waits once for each call that it hands over, and between two waits no time passes, so its calls
times the timeout bound the time it takes. Tasks of several signers wait at the same time: each
meets the deadline of its own batch, and all of them together meet the latest of these deadlines.

* `Runner.OnTime` is a runner that would meet a deadline even if all its waits took their full time.
  It is on time from the start on (`onTime_proceed`) and after every wait (`OnTime.collect`).
* `SignerTask.AllOnTime` holds from the launch on (`allOnTime_launched`) and after every round
  (`AllOnTime.round`), whichever task goes on in it.
* `batches_end_in_time` is the main result.
-/

namespace ShellSale

variable {σ κ : Type} {client : Client σ κ}

/-! ### Runners -/

namespace Runner

variable {w : World σ κ} {r : Runner κ} {now deadline : Nat}

/-- How many calls a runner has yet to wait for, besides the one that it waits for. -/
def left (r : Runner κ) : Nat :=
  r.todo.length + r.inFlight.length

/-- A runner that meets a deadline even if its next waits all take their full time. -/
def OnTime (r : Runner κ) (now deadline : Nat) : Prop :=
  ∀ nonce outcome wake, r.stage = .waiting nonce outcome wake →
    now ≤ wake ∧ wake + r.left * r.options.timeout ≤ deadline

theorem OnTime.mono {deadline' : Nat} (h : r.OnTime now deadline) (le : deadline ≤ deadline') :
    r.OnTime now deadline' := by
  intro nonce outcome wake stage
  obtain ⟨early, meets⟩ := h nonce outcome wake stage
  exact ⟨early, meets.trans le⟩

theorem left_issue_le (client : Client σ κ) (w : World σ κ) (r : Runner κ) (calls : List κ) :
    (issue client w r calls).2.left ≤ calls.length + r.inFlight.length :=
  (Nat.le_add_right ..).trans (issue_remaining_le client w r calls)

/-- The next wait takes one call from those to wait for, and no more time than the timeout. -/
theorem onTime_awaitNext (client : Client σ κ) (w : World σ κ)
    (idle : ∀ nonce outcome wake, r.stage ≠ .waiting nonce outcome wake) :
    (r.awaitNext client w).OnTime w.now (w.now + r.left * r.options.timeout) := by
  intro nonce outcome wake stage
  by_cases finished : r.stage = .finished
  · cases flying : r.inFlight with
    | nil =>
      rw [awaitNext_of_nil flying] at stage
      exact absurd stage (idle nonce outcome wake)
    | cons s rest =>
      have bounds := s.wait_bounds client.errors (r.options.levelOf r.mode) w.now r.options.timeout
      have one_less : r.left = r.todo.length + rest.length + 1 := by
        rw [left, flying, List.length_cons, Nat.add_assoc]
      rw [awaitNext_of_cons finished flying] at stage ⊢
      injection stage with _ _ ends
      rw [← ends, one_less, Nat.add_one_mul]
      refine ⟨bounds.1, ?_⟩
      simp only [left]
      omega
  · rw [awaitNext_of_ne finished] at stage
    exact absurd stage (idle nonce outcome wake)

theorem onTime_proceed (client : Client σ κ) (w : World σ κ) (r : Runner κ) :
    (r.proceed client w).1.now = w.now ∧
      (r.proceed client w).2.OnTime w.now (w.now + r.left * r.options.timeout) := by
  obtain ⟨new, issued⟩ := exists_issued client w r r.todo
  have ready := onTime_awaitNext client (issue client w r r.todo).1 issued.idle
  have fewer : (issue client w r r.todo).2.left * r.options.timeout ≤
      r.left * r.options.timeout :=
    Nat.mul_le_mul_right _ (left_issue_le client w r r.todo)
  rw [issued.now, issued.options] at ready
  exact ⟨issued.now, ready.mono (Nat.add_le_add_left fewer _)⟩

/-- **The end of a wait** leaves a runner on time. -/
theorem OnTime.collect {nonce wake : Nat} {outcome : Outcome} (h : r.OnTime now deadline)
    (client : Client σ κ) (stage : r.stage = .waiting nonce outcome wake) (due : w.now = wake) :
    (r.collect client w nonce outcome).1.now = w.now ∧
      (r.collect client w nonce outcome).2.OnTime w.now deadline := by
  obtain ⟨-, meets⟩ := h nonce outcome wake stage
  rw [collect_eq]
  split
  · refine ⟨now_heard client w r nonce outcome, ?_⟩
    intro nonce' outcome' wake' waits
    cases waits
  · obtain ⟨now_eq, ready⟩ := onTime_proceed client (r.heard client w nonce outcome)
      (r.withOutcome client w outcome)
    rw [now_heard] at now_eq ready
    refine ⟨now_eq, ready.mono ?_⟩
    rw [due]
    exact meets

/-- **A runner meets its deadline** if it is on time. -/
theorem now_run_le (h : r.OnTime w.now deadline) (le : w.now ≤ deadline) :
    (run client w r).1.now ≤ deadline := by
  have kept : (run client w r).1.now ≤ deadline ∧
      (run client w r).2.OnTime (run client w r).1.now deadline := by
    refine run_keeps (P := fun w r => w.now ≤ deadline ∧ r.OnTime w.now deadline) ?_ ⟨le, h⟩
    rintro w r nonce outcome wake ⟨-, onTime⟩ stage
    obtain ⟨early, meets⟩ := onTime nonce outcome wake stage
    have due : max w.now wake = wake := max_eq_right early
    obtain ⟨now_eq, still⟩ :=
      onTime.collect client (w := { w with now := max w.now wake }) stage due
    rw [now_eq]
    exact ⟨due.trans_le ((Nat.le_add_right ..).trans meets), still⟩
  exact kept.1

end Runner

/-- **A single batch** takes no longer than its calls times the timeout. -/
theorem now_runBatch_le (client : Client σ κ) (w : World σ κ) (t : Tracker) (mode : Mode)
    (options : Options) (calls : List κ) :
    (runBatch client w t mode options calls).1.now ≤ w.now + calls.length * options.timeout := by
  obtain ⟨now_eq, ready⟩ := Runner.onTime_proceed client w
    { tracker := t, mode, options, total := calls.length, todo := calls }
  rw [← now_eq] at ready ⊢
  exact Runner.now_run_le ready (Nat.le_add_right ..)

/-! ### Tasks -/

namespace SignerTask

variable {w : World σ κ} {t : SignerTask κ} {now deadline : Nat}

/-- A task that is over, or whose runner meets a deadline. -/
def OnTime (t : SignerTask κ) (now deadline : Nat) : Prop :=
  ∀ r, t.state = .running r → r.OnTime now deadline

/-- While a task that is on time waits, the clock is not past the end of its wait, and that is not
past its deadline. -/
theorem OnTime.wake {wake : Nat} (h : t.OnTime now deadline) (due : t.wake? = some wake) :
    now ≤ wake ∧ wake ≤ deadline := by
  obtain ⟨r, nonce, outcome, running, stage⟩ := exists_waiting_of_wake? due
  obtain ⟨early, meets⟩ := h r running nonce outcome wake stage
  exact ⟨early, (Nat.le_add_right ..).trans meets⟩

/-- The clock may go on as long as the wait of the task is not over. -/
theorem OnTime.later {now' : Nat} (h : t.OnTime now deadline)
    (early : ∀ wake, t.wake? = some wake → now' ≤ wake) : t.OnTime now' deadline := by
  intro r running nonce outcome wake stage
  refine ⟨early wake ?_, (h r running nonce outcome wake stage).2⟩
  rw [wake?, running]
  simp only [stage]

theorem onTime_conclude {r : Runner κ} (h : r.OnTime now deadline) (w : World σ κ)
    (account : AccountId) (number : Nat) : (conclude w account number r).2.OnTime now deadline := by
  intro r' running
  rw [running_conclude running]
  exact h

theorem now_conclude (w : World σ κ) (account : AccountId) (number : Nat) (r : Runner κ) :
    (conclude w account number r).1.now = w.now := by
  unfold conclude
  split <;> rfl

/-- **A task that is resumed** when its wait ends stays on time. -/
theorem OnTime.resume {wake : Nat} (h : t.OnTime now deadline) (client : Client σ κ)
    (waits : t.wake? = some wake) (due : w.now = wake) :
    (t.resume client w).1.now = w.now ∧ (t.resume client w).2.OnTime w.now deadline := by
  obtain ⟨r, nonce, outcome, running, stage⟩ := exists_waiting_of_wake? waits
  obtain ⟨now_eq, still⟩ := (h r running).collect client stage due
  simp only [SignerTask.resume, running, stage]
  exact ⟨(now_conclude ..).trans now_eq, onTime_conclude still _ _ _⟩

/-- A task is on time when it is launched: opening its tracker takes no time. -/
theorem onTime_launch (client : Client σ κ) (mode : Mode) (options : Options) (w : World σ κ)
    (number : Nat) (b : Batch κ) :
    (launch client mode options w number b).2.OnTime w.now
      (w.now + b.calls.length * options.timeout) := by
  unfold launch
  cases result : Tracker.open_ client w b.account with
  | mk answer w' =>
    cases answer with
    | error e =>
      intro r running
      cases running
    | ok t =>
      obtain ⟨-, -, -, -, now_eq⟩ := Tracker.open_eq_ok result
      obtain ⟨-, ready⟩ := Runner.onTime_proceed client w'
        { tracker := t, mode, options, total := b.calls.length, todo := b.calls }
      rw [now_eq] at ready
      exact onTime_conclude ready _ _ _

/-- A task is on time when it is spawned, and spawning it takes no time. -/
theorem onTime_spawn (client : Client σ κ) (mode : Mode) (options : Options) (w : World σ κ)
    (number : Nat) (b : Batch κ) :
    (spawn client mode options w number b).1.now = w.now ∧
      (spawn client mode options w number b).2.OnTime w.now
        (w.now + b.calls.length * options.timeout) := by
  let P (w' : World σ κ) (t : SignerTask κ) : Prop :=
    w'.now = w.now ∧ t.OnTime w.now (w.now + b.calls.length * options.timeout)
  refine spawn_induction (P := P) ⟨(steps_launch client mode options w number b).now_eq,
    onTime_launch client mode options w number b⟩ ?_
  rintro w' t wake waits passed ⟨same, onTime⟩
  -- a wait that is over ends just now
  have due : w'.now = wake := by
    have early := (onTime.wake waits).1
    omega
  obtain ⟨now_eq, still⟩ := onTime.resume client waits due
  rw [same] at now_eq still
  exact ⟨now_eq, still⟩

/-! ### Sets of tasks -/

/-- When the batch with the most calls is done at the latest. -/
def latest (timeout : Nat) (batches : List (Batch κ)) (start : Nat) : Nat :=
  start + (batches.map fun b => b.calls.length * timeout).max?.getD 0

theorem le_latest {batches : List (Batch κ)} {b : Batch κ} (mem : b ∈ batches)
    (timeout start : Nat) : start + b.calls.length * timeout ≤ latest timeout batches start :=
  Nat.add_le_add_left (List.le_max?_getD_of_mem
    (List.mem_map_of_mem (f := fun b : Batch κ => b.calls.length * timeout) mem)) start

/-- **A set of tasks on time**: each meets the deadline of its own batch. -/
structure AllOnTime (timeout : Nat) (batches : List (Batch κ)) (start : Nat)
    (p : World σ κ × List (SignerTask κ)) : Prop where
  now_le : p.1.now ≤ latest timeout batches start
  waits : ∀ t ∈ p.2, t.Waits
  accounts : p.2.map (·.account) = batches.map (·.account)
  each : ∀ (i : Nat) b t, batches[i]? = some b → p.2[i]? = some t →
    t.OnTime p.1.now (start + b.calls.length * timeout)

variable {timeout start : Nat} {batches : List (Batch κ)} {p q : World σ κ × List (SignerTask κ)}

/-- **A round** leaves all tasks on time. -/
theorem AllOnTime.round {w w' : World σ κ} {tasks tasks' : List (SignerTask κ)}
    (round : Round client w tasks w' tasks') (h : AllOnTime timeout batches start (w, tasks)) :
    AllOnTime timeout batches start (w', tasks') := by
  cases round with
  | @resume wake k t next found waits =>
    obtain ⟨b, given, account⟩ := exists_getElem?_of_map_eq h.accounts found
    have onTime := h.each k b t given found
    have bounds := onTime.wake waits
    have due : ({ w with now := max w.now wake } : World σ κ).now = wake := max_eq_right bounds.1
    generalize { w with now := max w.now wake } = v at due
    -- the task is resumed when its wait ends, and waits for its next call within its own time
    obtain ⟨now_eq, still⟩ := onTime.resume client waits due
    rw [due] at now_eq still
    refine { now_le := ?_, waits := ?_, accounts := ?_, each := ?_ }
    · rw [now_eq]
      exact bounds.2.trans (le_latest (List.mem_of_getElem? given) timeout start)
    · intro t' mem'
      rcases List.mem_or_eq_of_mem_set mem' with kept | rfl
      · exact h.waits t' kept
      · obtain ⟨_, _, step⟩ := step_resume client v waits
        exact step.waits
    · exact (accounts_set client v found).trans h.accounts
    · intro i b' t' given' placed
      rw [now_eq]
      rcases placed_set found placed with ⟨rfl, rfl⟩ | ⟨-, placed⟩
      · obtain rfl := Option.some.inj (given.symm.trans given')
        exact still
      · -- no other wait ends before the next one does
        refine (h.each i b' t' given' placed).later ?_
        intro wake' waits'
        exact (List.min?_eq_some_iff.mp next).2 wake'
          (List.mem_filterMap.mpr ⟨t', List.mem_of_getElem? placed, waits'⟩)

theorem AllOnTime.rounds (h : AllOnTime timeout batches start p) (rounds : Rounds client p q) :
    AllOnTime timeout batches start q :=
  rounds.keep (P := fun w tasks => AllOnTime timeout batches start (w, tasks)) AllOnTime.round h

/-- A task of a set that is on time has ended, or its wait ends by the deadline of its batch. -/
theorem AllOnTime.meets (h : AllOnTime timeout batches start p) {i : Nat} {b : Batch κ}
    (given : batches[i]? = some b) :
    ∃ t, p.2[i]? = some t ∧ t.account = b.account ∧
      ((∃ result, t.state = .ended result) ∨
        ∃ wake, t.wake? = some wake ∧ p.1.now ≤ wake ∧
          wake ≤ start + b.calls.length * timeout) := by
  obtain ⟨t, found, account⟩ := exists_getElem?_of_map_eq h.accounts.symm given
  refine ⟨t, found, account.symm, ?_⟩
  cases asleep : t.wake? with
  | none => exact Or.inl ((h.waits t (List.mem_of_getElem? found)).ended_of_wake? asleep)
  | some wake => exact Or.inr ⟨wake, rfl, (h.each i b t given found).wake asleep⟩

/-! ### Launching -/

theorem onTime_launchAll (client : Client σ κ) (mode : Mode) (options : Options) (w : World σ κ)
    (number : Nat) (batches : List (Batch κ)) :
    let p := launchAll client mode options w number batches
    p.1.now = w.now ∧ (∀ t ∈ p.2, t.Waits) ∧
      ∀ (i : Nat) b t, batches[i]? = some b → p.2[i]? = some t →
        t.OnTime w.now (w.now + b.calls.length * options.timeout) := by
  induction batches generalizing w number with
  | nil => exact ⟨rfl, by simp [launchAll], by simp⟩
  | cons b rest ih =>
    obtain ⟨now_eq, onTime⟩ := onTime_spawn client mode options w number b
    obtain ⟨waits, -⟩ := spawn_spec client mode options w number b
    obtain ⟨later_now, later_waits, later⟩ :=
      ih (spawn client mode options w number b).1 (number + 1)
    rw [now_eq] at later_now later
    refine ⟨later_now, List.forall_mem_cons.mpr ⟨waits, later_waits⟩, ?_⟩
    intro i b' t given found
    cases i with
    | zero =>
      obtain rfl := Option.some.inj given
      obtain rfl := Option.some.inj found
      exact onTime
    | succ i => exact later i b' t given found

theorem now_join (w : World σ κ) (results : AccountMap (List Outcome))
    (first : Option PipelineError) (tasks : List (SignerTask κ)) :
    (join w results first tasks).1.now = w.now := by
  induction tasks generalizing w results first with
  | nil => rfl
  | cons t rest ih =>
    unfold join
    split
    · exact ih ..
    · exact ih ..
    · exact ih ..

end SignerTask

/-! ### Whole runs -/

theorem allOnTime_launched (client : Client σ κ) (w : World σ κ) (batches : List (Batch κ))
    (mode : Mode) (options : Options) :
    SignerTask.AllOnTime options.timeout batches w.now
      (launchedOf client w batches mode options) := by
  obtain ⟨now_eq, waits, each⟩ := SignerTask.onTime_launchAll client mode options
    { w with tasks := w.tasks + batches.length } (w.tasks + 1) batches
  exact {
    now_le := by
      rw [launchedOf, now_eq]
      exact Nat.le_add_right ..
    waits
    accounts := SignerTask.accounts_launchAll ..
    each := by
      rw [launchedOf, now_eq]
      exact each }

/-- **Batches end in time**, whatever the node reports. A batch of a single signer, in either mode,
ends within its calls times the timeout. Batches of several signers end within the longest such time
of any of them: they go through rounds until all tasks have ended, and in each state on the way,
whatever the order of the rounds, a task that has not ended waits no longer than until the deadline
of its own batch. -/
theorem batches_end_in_time (client : Client σ κ) (w : World σ κ) (mode : Mode)
    (options : Options) :
    (∀ t calls,
      let p := runBatch client w t mode options calls
      (p.2.stage = .finished ∨ p.2.stage = .overflowed) ∧
        p.1.now ≤ w.now + calls.length * options.timeout) ∧
    ∀ batches,
      let launched := launchedOf client w batches mode options
      let ended := tasksOf client w batches mode options
      (runAcross client w batches mode options).2.now ≤ w.now +
        (batches.map fun b => b.calls.length * options.timeout).max?.getD 0 ∧
      SignerTask.Rounds client launched ended ∧
      (∀ t ∈ ended.2, ∃ result, t.state = .ended result) ∧
      ∀ q, SignerTask.Rounds client launched q → ∀ (i : Nat) b, batches[i]? = some b →
        ∃ t, q.2[i]? = some t ∧ t.account = b.account ∧
          ((∃ result, t.state = .ended result) ∨
            ∃ wake, t.wake? = some wake ∧ q.1.now ≤ wake ∧
              wake ≤ w.now + b.calls.length * options.timeout) := by
  constructor
  · intro t calls
    exact ⟨Runner.stage_runBatch client w t mode options calls,
      now_runBatch_le client w t mode options calls⟩
  · intro batches launched ended
    have rounds := (runs_tasksOf client w batches mode options).rounds
    have started := allOnTime_launched client w batches mode options
    refine ⟨?_, rounds, tasksOf_ended client w batches mode options, ?_⟩
    · rw [world_runAcross, SignerTask.now_join]
      exact (started.rounds rounds).now_le
    · intro q reached i b given
      exact (started.rounds reached).meets given

end ShellSale
