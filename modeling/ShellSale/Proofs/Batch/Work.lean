import ShellSale.Proofs.Batch.Tasks
import ShellSale.Proofs.Pipeline.Steps

/-!
## The work of batches

Between two waits the batch of a signer does nothing but work for that signer. So runners and tasks,
from their launch to their ends, take the steps of `World.Steps`, all for one account. With the
waits in between, all that a batch or a set of tasks does to the world is a `World.Course`.
-/

namespace ShellSale

variable {σ κ : Type} {client : Client σ κ}

namespace Runner

/-! ### Going on to a wait -/

theorem awaitNext_of_nil {w : World σ κ} {r : Runner κ}
    (flying : r.inFlight = []) : r.awaitNext client w = r := by
  unfold awaitNext
  split
  · rename_i some
    rw [flying] at some
    cases some
  · rfl

theorem awaitNext_of_cons {w : World σ κ} {r : Runner κ} {s : Submission}
    {rest : List Submission} (stage : r.stage = .finished) (flying : r.inFlight = s :: rest) :
    let waited := s.wait client.errors (r.options.levelOf r.mode) w.now r.options.timeout
    r.awaitNext client w =
      { r with inFlight := rest, stage := .waiting s.nonce waited.1 waited.2 } := by
  simp only [awaitNext, flying, stage]

theorem awaitNext_of_ne {w : World σ κ} {r : Runner κ} (stage : r.stage ≠ .finished) :
    r.awaitNext client w = r := by
  unfold awaitNext
  split
  · rename_i finished _
    exact absurd finished stage
  · rfl

/-! ### Steps -/

theorem steps_issue (client : Client σ κ) (w : World σ κ) (r : Runner κ) (calls : List κ) :
    World.Steps client r.tracker.account w (issue client w r calls).1 := by
  induction calls generalizing w r with
  | nil => exact .refl
  | cons call rest ih =>
    unfold issue
    split
    · exact .refl
    · split
      · exact World.Steps.notify w _
      · split
        · exact .refl
        · rename_i w₁ t s submitted
          have more := ih w₁ { r with tracker := t, inFlight := r.inFlight ++ [s] }
          have account := (Tracker.Submitted.of_submit? submitted).account
          rw [show t.account = r.tracker.account from account] at more
          exact (Tracker.steps_submit? submitted).trans more

theorem steps_proceed (client : Client σ κ) (w : World σ κ) (r : Runner κ) :
    World.Steps client r.tracker.account w (r.proceed client w).1 :=
  steps_issue client w r r.todo

theorem steps_heard (client : Client σ κ) (w : World σ κ) (r : Runner κ) (nonce : Nat)
    (outcome : Outcome) (a : AccountId) :
    World.Steps client a w (r.heard client w nonce outcome) := by
  have told : World.Steps client a w (w.notifyAt (r.tracker.notices client.errors w.now)) :=
    World.Steps.notifyAt w _
  unfold heard
  split
  · exact told.trans (World.Steps.notify _ _)
  · exact told

theorem steps_collect (client : Client σ κ) (w : World σ κ) (r : Runner κ) (nonce : Nat)
    (outcome : Outcome) :
    World.Steps client r.tracker.account w (r.collect client w nonce outcome).1 := by
  have told := steps_heard client w r nonce outcome r.tracker.account
  rw [collect_eq]
  split
  · exact told.trans (World.Steps.notify _ _)
  · exact told.trans (steps_proceed client _ (r.withOutcome client w outcome))

/-- All that a runner does to the world on its way to its end. -/
theorem course_run (client : Client σ κ) (w : World σ κ) (r : Runner κ) :
    World.Course client w (run client w r).1 := by
  induction w, r using run.induct client with
  | case1 w r nonce outcome wake stage p =>
    rename_i ih
    rw [run_of_waiting stage]
    have passed : World.Course client w { w with now := max w.now wake } := .single (.pass wake)
    exact (passed.trans (steps_collect client _ r nonce outcome).course).trans ih
  | case2 w r ended =>
    rw [run_of_ended ended]

end Runner

namespace SignerTask

theorem steps_conclude (client : Client σ κ) (w : World σ κ) (account : AccountId) (number : Nat)
    (r : Runner κ) :
    World.Steps client r.tracker.account w (conclude w account number r).1 := by
  unfold conclude
  split
  · exact .refl
  · exact (World.Steps.notify w _).trans (Tracker.steps_close client _ r.tracker)
  · exact Tracker.steps_release client w r.tracker

/-- Launching a task is work for the account of its batch. -/
theorem steps_launch (client : Client σ κ) (mode : Mode) (options : Options) (w : World σ κ)
    (number : Nat) (b : Batch κ) :
    World.Steps client b.account w (launch client mode options w number b).1 := by
  have opened := Tracker.steps_open client w b.account
  unfold launch
  cases result : Tracker.open_ client w b.account with
  | mk answer w' =>
    rw [result] at opened
    cases answer with
    | error e => exact opened
    | ok t =>
      obtain ⟨-, -, account, -, -⟩ := Tracker.open_eq_ok result
      have started := Runner.steps_proceed client w'
        { tracker := t, mode, options, total := b.calls.length, todo := b.calls }
      have concluded := steps_conclude client (Runner.start client w' t mode options b.calls).1
        b.account number (Runner.start client w' t mode options b.calls).2
      rw [(Runner.acts_start client w' t mode options b.calls).1] at concluded
      have work := started.trans concluded
      rw [show t.account = b.account from account] at work
      exact opened.trans work

/-- Resuming a task is work for the account that it holds. -/
theorem steps_resume (client : Client σ κ) (w : World σ κ) {t : SignerTask κ} {r : Runner κ}
    (running : t.state = .running r) :
    World.Steps client r.tracker.account w (t.resume client w).1 := by
  simp only [resume, running]
  split
  · rename_i nonce outcome wake _
    have collected := Runner.steps_collect client w r nonce outcome
    have concluded := steps_conclude client (r.collect client w nonce outcome).1 t.account t.number
      (r.collect client w nonce outcome).2
    rw [(Runner.acts_collect client w r nonce outcome).account] at concluded
    exact collected.trans concluded
  · exact .refl

/-- Spawning a task is work for the account of its batch. -/
theorem steps_spawn (client : Client σ κ) (mode : Mode) (options : Options) (w : World σ κ)
    (number : Nat) (b : Batch κ) :
    World.Steps client b.account w (spawn client mode options w number b).1 := by
  let P (w' : World σ κ) (t : SignerTask κ) : Prop :=
    World.Steps client b.account w w' ∧ ∀ a, t.holder? = some a → a = b.account
  have spawned : P (spawn client mode options w number b).1
      (spawn client mode options w number b).2 := by
    refine spawn_induction (P := P) ⟨steps_launch client mode options w number b, ?_⟩ ?_
    · exact fun a => holder?_launch client mode options w number b
    · rintro w' t wake due - ⟨work, own⟩
      obtain ⟨r, nonce, outcome, running, -⟩ := exists_waiting_of_wake? due
      have more := steps_resume client w' running
      rw [own r.tracker.account (by rw [holder?, running])] at more
      exact ⟨work.trans more, fun a holds => own a (holder?_resume client w' due holds)⟩
  exact spawned.1

/-! ### Sets of tasks -/

/-- A single task is driven from wait to wait. -/
theorem drive_single {client : Client σ κ} {w : World σ κ} {t : SignerTask κ} {wake : Nat}
    (h : t.wake? = some wake) :
    drive client w [t] =
      drive client (t.resume client { w with now := max w.now wake }).1
        [(t.resume client { w with now := max w.now wake }).2] := by
  have next : nextWake [t] = some wake := by
    rw [nextWake, List.filterMap_cons_some h]
    rfl
  rw [drive_of_some next, resumeFirst, if_pos h]

/-- A single task that has ended is left as it is. -/
theorem drive_of_ended (client : Client σ κ) (w : World σ κ) {t : SignerTask κ}
    {result : Except PipelineError (List Outcome)} (ended : t.state = .ended result) :
    drive client w [t] = (w, [t]) := by
  have asleep : t.wake? = none := by
    rw [wake?, ended]
  have none : nextWake [t] = none := by
    rw [nextWake, List.filterMap_cons_none asleep]
    rfl
  exact drive_of_none none

/-- A single task that was spawned is driven as if it were just launched. -/
theorem drive_spawn (client : Client σ κ) (mode : Mode) (options : Options) (w : World σ κ)
    (number : Nat) (b : Batch κ) :
    drive client (spawn client mode options w number b).1
        [(spawn client mode options w number b).2] =
      drive client (launch client mode options w number b).1
        [(launch client mode options w number b).2] := by
  refine spawn_induction (P := fun w' t => drive client w' [t] = _) rfl ?_
  intro w' t wake due passed driven
  rw [drive_single due, max_eq_left passed] at driven
  exact driven

/-! ### Accounts -/

theorem account_conclude (w : World σ κ) (account : AccountId) (number : Nat) (r : Runner κ) :
    (conclude w account number r).2.account = account := by
  unfold conclude
  split <;> rfl

theorem account_launch (client : Client σ κ) (mode : Mode) (options : Options) (w : World σ κ)
    (number : Nat) (b : Batch κ) :
    (launch client mode options w number b).2.account = b.account := by
  unfold launch
  split
  · rfl
  · exact account_conclude ..

theorem account_resume (client : Client σ κ) (w : World σ κ) (t : SignerTask κ) :
    (t.resume client w).2.account = t.account := by
  unfold resume
  split
  · split
    · exact account_conclude ..
    · rfl
  · rfl

theorem account_spawn (client : Client σ κ) (mode : Mode) (options : Options) (w : World σ κ)
    (number : Nat) (b : Batch κ) :
    (spawn client mode options w number b).2.account = b.account := by
  refine spawn_induction (P := fun _ t => t.account = b.account) (account_launch ..) ?_
  intro w' t wake _ _ account
  rw [account_resume, account]

theorem accounts_launchAll (client : Client σ κ) (mode : Mode) (options : Options) (w : World σ κ)
    (number : Nat) (batches : List (Batch κ)) :
    (launchAll client mode options w number batches).2.map (·.account) =
      batches.map (·.account) := by
  induction batches generalizing w number with
  | nil => rfl
  | cons b rest ih => rw [launchAll, List.map_cons, List.map_cons, account_spawn, ih]

/-- A task of a set in which one was resumed is that one or stands where it stood. -/
theorem placed_set {tasks : List (SignerTask κ)} {k : Nat} {t : SignerTask κ}
    (found : tasks[k]? = some t) {t' s : SignerTask κ} {i : Nat}
    (listed : (tasks.set k t')[i]? = some s) :
    (i = k ∧ s = t') ∨ (i ≠ k ∧ tasks[i]? = some s) := by
  obtain ⟨bound, -⟩ := List.getElem?_eq_some_iff.mp found
  by_cases here : i = k
  · subst here
    rw [List.getElem?_set_self bound] at listed
    exact Or.inl ⟨rfl, (Option.some.inj listed).symm⟩
  · rw [List.getElem?_set_ne (Ne.symm here)] at listed
    exact Or.inr ⟨here, listed⟩

theorem accounts_set (client : Client σ κ) (w : World σ κ) {tasks : List (SignerTask κ)} {k : Nat}
    {t : SignerTask κ} (found : tasks[k]? = some t) :
    (tasks.set k (t.resume client w).2).map (·.account) = tasks.map (·.account) := by
  obtain ⟨front, back, rfl, set⟩ := exists_split found
  rw [set, List.map_append, List.map_append, List.map_cons, List.map_cons, account_resume]

/-- A round leaves every task with its account. -/
theorem accounts_round {w w' : World σ κ} {tasks tasks' : List (SignerTask κ)}
    (round : Round client w tasks w' tasks') :
    tasks'.map (·.account) = tasks.map (·.account) := by
  cases round with
  | resume next found due => exact accounts_set client _ found

theorem accounts_rounds {p q : World σ κ × List (SignerTask κ)} (rounds : Rounds client p q) :
    q.2.map (·.account) = p.2.map (·.account) :=
  rounds.keep (P := fun _ tasks => tasks.map (·.account) = p.2.map (·.account))
    (fun round accounts => (accounts_round round).trans accounts) rfl

/-- Tasks in different places of a set are of different accounts. -/
theorem account_ne {tasks : List (SignerTask κ)} (distinct : (tasks.map (·.account)).Nodup)
    {i j : Nat} {t t' : SignerTask κ} (found : tasks[i]? = some t) (found' : tasks[j]? = some t')
    (ne : i ≠ j) : t.account ≠ t'.account := by
  intro same
  obtain ⟨bound, -⟩ := List.getElem?_eq_some_iff.mp found
  have listed : (tasks.map (·.account))[i]? = (tasks.map (·.account))[j]? := by
    rw [List.getElem?_map, List.getElem?_map, found, found', Option.map_some, Option.map_some, same]
  exact ne ((List.getElem?_inj (by rwa [List.length_map]) distinct).mp listed)

/-! ### What happens to the world -/

theorem course_launchAll (client : Client σ κ) (mode : Mode) (options : Options) (w : World σ κ)
    (number : Nat) (batches : List (Batch κ)) :
    World.Course client w (launchAll client mode options w number batches).1 := by
  induction batches generalizing w number with
  | nil => exact .refl
  | cons b rest ih => exact (steps_spawn client mode options w number b).course.trans (ih _ _)

theorem course_round {w w' : World σ κ} {tasks tasks' : List (SignerTask κ)}
    (round : Round client w tasks w' tasks') : World.Course client w w' := by
  cases round with
  | @resume wake k t next found due =>
    obtain ⟨r, nonce, outcome, running, -⟩ := exists_waiting_of_wake? due
    have passed : World.Course client w { w with now := max w.now wake } := .single (.pass wake)
    exact passed.trans (steps_resume client _ running).course

theorem course_rounds {p q : World σ κ × List (SignerTask κ)} (rounds : Rounds client p q) :
    World.Course client p.1 q.1 :=
  rounds.keep (P := fun w _ => World.Course client p.1 w)
    (fun round course => course.trans (course_round round)) .refl

theorem course_join (client : Client σ κ) (w : World σ κ) (results : AccountMap (List Outcome))
    (first : Option PipelineError) (tasks : List (SignerTask κ)) :
    World.Course client w (join w results first tasks).1 := by
  induction tasks generalizing w results first with
  | nil => exact .refl
  | cons t rest ih =>
    unfold join
    split
    · exact ih ..
    · exact (World.Steps.notify (a := t.account) w _).course.trans (ih ..)
    · exact ih ..

/-- Gathering outcomes hands over no call. -/
theorem sent_join (w : World σ κ) (results : AccountMap (List Outcome))
    (first : Option PipelineError) (tasks : List (SignerTask κ)) :
    (join w results first tasks).1.sent = w.sent := by
  induction tasks generalizing w results first with
  | nil => rfl
  | cons t rest ih =>
    unfold join
    split
    · exact ih ..
    · exact (ih ..).trans (World.sent_notify w _)
    · exact ih ..

end SignerTask

/-- All that a batch on an open tracker does to the world. -/
theorem course_runBatch (client : Client σ κ) (w : World σ κ) (t : Tracker) (mode : Mode)
    (options : Options) (calls : List κ) :
    World.Course client w (runBatch client w t mode options calls).1 :=
  (Runner.steps_proceed client w _).course.trans (Runner.course_run client _ _)

section

variable {w : World σ κ} {batches : List (Batch κ)} {mode : Mode} {options : Options}
  {q : World σ κ × List (SignerTask κ)}

/-- All that the tasks of batches do to the world, at any point of any order. -/
theorem course_of_rounds
    (rounds : SignerTask.Rounds client (launchedOf client w batches mode options) q) :
    World.Course client w q.1 := by
  have numbered : World.Course client w { w with tasks := w.tasks + batches.length } :=
    .single (.number batches.length)
  exact (numbered.trans (SignerTask.course_launchAll ..)).trans (SignerTask.course_rounds rounds)

/-- The tasks of a run of batches are those of its accounts, in the order of the batches. -/
theorem accounts_of_rounds
    (rounds : SignerTask.Rounds client (launchedOf client w batches mode options) q) :
    q.2.map (·.account) = batches.map (·.account) :=
  (SignerTask.accounts_rounds rounds).trans (SignerTask.accounts_launchAll ..)

end

theorem course_tasksOf (client : Client σ κ) (w : World σ κ) (batches : List (Batch κ))
    (mode : Mode) (options : Options) :
    World.Course client w (tasksOf client w batches mode options).1 :=
  course_of_rounds (runs_tasksOf client w batches mode options).rounds

theorem accounts_tasksOf (client : Client σ κ) (w : World σ κ) (batches : List (Batch κ))
    (mode : Mode) (options : Options) :
    (tasksOf client w batches mode options).2.map (·.account) = batches.map (·.account) :=
  accounts_of_rounds (runs_tasksOf client w batches mode options).rounds

end ShellSale
