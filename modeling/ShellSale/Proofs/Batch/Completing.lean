import ShellSale.Proofs.Batch.Aligned
import ShellSale.Proofs.Batch.Starting

/-!
## What a run of batches leaves done

When a run of batches has ended, nobody waits any more: each wait that a batch has begun ended by
then. A pipelined batch hands over all its calls before it begins its first wait, so what becomes of
a call keeps none of them back, whatever the batch stops on.

* `SignerTask.Kept` says that a property of a task is kept by all that happens in a run, and
  `Kept.rounds` that the tasks have it at any point if they have it when they are launched.
* `SignerTask.Issued` is such a property: all calls were handed over at once, unless the task failed
  or the signal is raised.
* `Batch.Done` is what a batch has done all of whose calls were handed over, and `done_runAcross` is
  the main result.
-/

namespace ShellSale

variable {σ κ : Type} {client : Client σ κ}

/-- The clock never goes back. -/
theorem World.Course.now_le {w w' : World σ κ} (course : World.Course client w w') :
    w.now ≤ w'.now := by
  induction course with
  | refl => exact Nat.le_refl _
  | tail _ move ih =>
    refine ih.trans ?_
    cases move with
    | work step => exact step.now_eq.ge
    | pass wake => exact Nat.le_max_left ..
    | number count => exact Nat.le_refl _
    | line l => exact Nat.le_refl _

/-- Calls that were handed over stay handed over. -/
theorem World.Course.length_sentBy_le {w w' : World σ κ} (course : World.Course client w w')
    (a : AccountId) : (w.sentBy a).length ≤ (w'.sentBy a).length := by
  obtain ⟨new, sent⟩ := course.exists_sent_eq
  rw [World.sentBy_append sent, List.length_append]
  exact Nat.le_add_right ..

theorem Sent.filter_series (a : AccountId) (n : Nat) (calls : List κ) :
    (series a n calls).filter (fun s => s.account = a) = series a n calls := by
  induction calls generalizing n with
  | nil => rfl
  | cons call rest ih => simp [series, ih]

namespace SignerTask

/-! ### What tasks keep -/

/-- A property of tasks, each with its batch, that is kept by all that happens in a run of batches:
by what goes past the account of the batch, time included, and by the task itself when its wait
ends. -/
structure Kept (client : Client σ κ) (P : Batch κ → World σ κ → State κ → Prop) : Prop where
  later : ∀ {b : Batch κ} {w w' : World σ κ} {s : State κ}, P b w s → World.Course client w w' →
    w'.sentBy b.account = w.sentBy b.account → P b w' s
  resumed : ∀ {b : Batch κ} {w : World σ κ} {t : SignerTask κ}, P b w t.state →
    t.account = b.account → t.wake? = some w.now →
    P b (t.resume client w).1 (t.resume client w).2.state

/-- Each of some tasks has a property of tasks, with its batch. -/
def Each (P : Batch κ → World σ κ → State κ → Prop) (batches : List (Batch κ)) (w : World σ κ)
    (tasks : List (SignerTask κ)) : Prop :=
  ∀ (i : Nat) b t, batches[i]? = some b → tasks[i]? = some t → P b w t.state

variable {P : Batch κ → World σ κ → State κ → Prop} {mode : Mode} {options : Options}
  {w₀ w : World σ κ} {b : Batch κ} {batches : List (Batch κ)} {tasks : List (SignerTask κ)}

theorem Kept.spawn (kept : Kept client P) (number : Nat)
    (beside : World.Beside client b.account w₀ w)
    (launched : P b (launch client mode options w number b).1
      (launch client mode options w number b).2.state) :
    P b (spawn client mode options w number b).1
      (spawn client mode options w number b).2.state := by
  let Q (w' : World σ κ) (t : SignerTask κ) : Prop :=
    t.account = b.account ∧ Faithful client mode options b w₀ w' t.state ∧ P b w' t.state
  have spawned : Q (SignerTask.spawn client mode options w number b).1
      (SignerTask.spawn client mode options w number b).2 := by
    refine spawn_induction (P := Q)
      ⟨account_launch .., faithful_launch mode options number beside, launched⟩ ?_
    rintro w' t wake due passed ⟨account, faithful, holds⟩
    -- a wait that is over ends just now
    have now : w'.now = wake := le_antisymm (faithful.le_wake due) passed
    exact ⟨(account_resume client w' t).trans account, faithful.resume account due now,
      kept.resumed holds account (now ▸ due)⟩
  exact spawned.2.2

theorem Kept.launchAll (kept : Kept client P) (number : Nat)
    (distinct : (batches.map (·.account)).Nodup)
    (beside : ∀ b ∈ batches, World.Beside client b.account w₀ w)
    (launched : ∀ b ∈ batches, ∀ w' number, World.Beside client b.account w₀ w' →
      P b (launch client mode options w' number b).1
        (launch client mode options w' number b).2.state) :
    Each P batches (launchAll client mode options w number batches).1
      (launchAll client mode options w number batches).2 := by
  induction batches generalizing w number with
  | nil =>
    intro i b t given
    cases given
  | cons b rest ih =>
    rw [List.map_cons, List.nodup_cons] at distinct
    rw [List.forall_mem_cons] at beside launched
    have work := steps_spawn client mode options w number b
    intro i b' t given found
    cases i with
    | zero =>
      obtain rfl := Option.some.inj given
      obtain rfl := Option.some.inj found
      -- the later batches work beside this one
      have others := beside_launchAll client mode options
        (SignerTask.spawn client mode options w number b).1 (number + 1) distinct.1
      exact kept.later (kept.spawn number beside.1 (launched.1 w number beside.1)) others.course
        others.sentBy
    | succ i =>
      refine ih (number + 1) distinct.2 ?_ launched.2 i b' t given found
      intro b'' mem
      have ne : b''.account ≠ b.account := fun same => distinct.1 (same ▸ List.mem_map_of_mem mem)
      exact (beside.2 b'' mem).trans (work.beside ne)

/-- Resuming a task keeps what tasks keep. -/
theorem Kept.resume (kept : Kept client P) (each : Each P batches w tasks)
    (faithful : AllFaithful client mode options batches w₀ w tasks) {wake k : Nat}
    {t : SignerTask κ} (found : tasks[k]? = some t) (waits : t.wake? = some wake)
    (now : w.now = wake) :
    Each P batches (t.resume client w).1 (tasks.set k (t.resume client w).2) := by
  intro i b t' given placed
  rcases placed_set found placed with ⟨rfl, rfl⟩ | ⟨other, placed⟩
  · exact kept.resumed (each i b t given found) (faithful.each i b t given found).1 (now ▸ waits)
  · have past := faithful.beside_resume found waits other given placed
    exact kept.later (each i b t' given placed) past.course past.sentBy

/-- A round keeps what tasks keep. -/
theorem Kept.round (kept : Kept client P) {w' : World σ κ} {tasks' : List (SignerTask κ)}
    (round : Round client w tasks w' tasks') (each : Each P batches w tasks)
    (faithful : AllFaithful client mode options batches w₀ w tasks) : Each P batches w' tasks' := by
  cases round with
  | @resume wake k t next found due =>
    obtain ⟨later, now⟩ := faithful.later next
    have passed : Each P batches { w with now := max w.now wake } tasks :=
      fun i b t given found => kept.later (each i b t given found) (.single (.pass wake)) rfl
    exact kept.resume passed later found due now

/-- **What tasks keep holds of them at any point of any order** if it holds of each when it is
launched. -/
theorem Kept.rounds (kept : Kept client P) (distinct : (batches.map (·.account)).Nodup)
    (launched : ∀ b ∈ batches, ∀ w' number, World.Beside client b.account w w' →
      P b (launch client mode options w' number b).1
        (launch client mode options w' number b).2.state)
    {q : World σ κ × List (SignerTask κ)}
    (rounds : Rounds client (launchedOf client w batches mode options) q) :
    Each P batches q.1 q.2 := by
  have numbered : ∀ b ∈ batches,
      World.Beside client b.account w { w with tasks := w.tasks + batches.length } :=
    fun b _ => beside_number client b.account w _
  let Q (w' : World σ κ) (tasks : List (SignerTask κ)) : Prop :=
    AllFaithful client mode options batches w w' tasks ∧ Each P batches w' tasks
  have kept_rounds : Q q.1 q.2 := by
    refine rounds.keep (P := Q) ?_ ⟨allFaithful_launchAll mode options (w.tasks + 1) distinct
      numbered, kept.launchAll (w.tasks + 1) distinct numbered launched⟩
    rintro w' tasks w'' tasks' round ⟨faithful, each⟩
    exact ⟨faithful.round round, kept.round round each faithful⟩
  exact kept_rounds.2

/-! ### Waits that are over -/

/-- What a task has done since the world `w₀`: its batch is on its way, or it has ended, and then
all waits whose outcomes it reports are over. -/
inductive Over (client : Client σ κ) (mode : Mode) (options : Options) (w₀ : World σ κ)
    (b : Batch κ) (w : World σ κ) : State κ → Prop where
  | running {t : Tracker} {issued : List Submission} {last : Nat} {r : Runner κ}
    (account : t.account = b.account)
    (progress : Runner.Progress client (b.order mode options t w₀) w₀ issued last w r) :
    Over client mode options w₀ b w (.running r)
  | ended {first : Nat} {subs : List Submission} {outcomes : List Outcome}
    (report : b.Report client mode options first w₀ w subs outcomes)
    (past : Submission.waitsEnd client.errors (options.levelOf mode) options.timeout w₀.now
      (subs.take outcomes.length) ≤ w.now) :
    Over client mode options w₀ b w (.ended (.ok outcomes))
  | failed (e : PipelineError) : Over client mode options w₀ b w (.ended (.error e))

theorem over_conclude {t : Tracker} {issued : List Submission} {r : Runner κ}
    (account : t.account = b.account)
    (progress : Runner.Progress client (b.order mode options t w₀) w₀ issued w.now w r)
    (number : Nat) :
    Over client mode options w₀ b (conclude w b.account number r).1
      (conclude w b.account number r).2.state := by
  have steps := steps_conclude client w b.account number r
  have sentBy := World.sentBy_of_sent (sent_conclude w b.account number r) b.account
  cases stage : r.stage with
  | waiting nonce outcome wake =>
    simp only [conclude, stage]
    exact .running account progress
  | finished =>
    have report := (progress.report account stage).mono steps.course sentBy
    -- the last wait ended just now
    have past := progress.paused.inv.last_eq.ge.trans_eq steps.now_eq.symm
    simp only [conclude, stage] at report past ⊢
    exact .ended report past
  | overflowed =>
    simp only [conclude, stage]
    exact .failed _

theorem over_launch (number : Nat) (beside : World.Beside client b.account w₀ w) :
    Over client mode options w₀ b (launch client mode options w number b).1
      (launch client mode options w number b).2.state := by
  have opened := Tracker.steps_open client w b.account
  have sent := Tracker.sent_open client w b.account
  unfold launch
  cases result : Tracker.open_ client w b.account with
  | mk answer w' =>
    rw [result] at opened sent
    cases answer with
    | error e => exact .failed e
    | ok t =>
      obtain ⟨-, -, account, -, now⟩ := Tracker.open_eq_ok result
      have sentBy := (World.sentBy_of_sent sent b.account).trans beside.sentBy
      obtain ⟨issued, progress⟩ := Runner.exists_progress_start client w' t mode options b.calls
        (beside.course.trans opened.course)
      have order : b.order mode options t w₀ =
          ⟨mode, options, b.calls, t, w'.now, w'.sentBy t.account⟩ := by
        rw [Batch.order, now, account, sentBy, beside.now]
      rw [← order] at progress
      exact over_conclude account progress number

theorem kept_over : Kept client (Over client mode options w₀) where
  later := by
    intro b w w' s past course sentBy
    cases past with
    | running account progress =>
      rw [← account] at sentBy
      exact .running account (progress.mono course sentBy)
    | ended report past =>
      exact .ended (report.mono course sentBy) (past.trans course.now_le)
    | failed e => exact .failed e
  resumed := by
    intro b w t past account due
    obtain ⟨r, nonce, outcome, running, stage⟩ := exists_waiting_of_wake? due
    rw [running] at past
    cases past with
    | running mine progress =>
      obtain ⟨issued, progress⟩ := progress.collect stage rfl
      simp only [SignerTask.resume, running, stage, account]
      exact over_conclude mine progress t.number

/-! ### Calls that are handed over at once -/

/-- All calls of a batch have been handed over since the world `w₀`, unless its task has failed or
the signal is raised. -/
def Issued (options : Options) (w₀ : World σ κ) (b : Batch κ) (w : World σ κ) (s : State κ) :
    Prop :=
  (∃ e, s = .ended (.error e)) ∨ w.aborted options = true ∨
    (w₀.sentBy b.account).length + b.calls.length ≤ (w.sentBy b.account).length

theorem kept_issued : Kept client (Issued options w₀) where
  later := fun issued course _ => issued.imp_right
    (Or.imp (World.aborted_of_course course) fun all => all.trans (course.length_sentBy_le _))
  resumed := by
    intro b w t issued account due
    obtain ⟨r, nonce, outcome, running, -⟩ := exists_waiting_of_wake? due
    have course := (steps_resume client w running).course
    rcases issued with ⟨e, failed⟩ | raised | all
    · rw [running] at failed
      cases failed
    · exact Or.inr (Or.inl (World.aborted_of_course course raised))
    · exact Or.inr (Or.inr (all.trans (course.length_sentBy_le _)))

end SignerTask

/-- A pipelined batch hands over all its calls as it starts, unless it runs out of nonces or the
signal is raised. -/
theorem Runner.sent_start_pipelined (client : Client σ κ) (w : World σ κ) (t : Tracker)
    (options : Options) (calls : List κ) :
    let p := start client w t .pipelined options calls
    p.2.stage = .overflowed ∨ p.1.aborted options = true ∨
      p.1.sent = w.sent ++ Sent.series t.account t.cursor.next calls := by
  let r : Runner κ :=
    { tracker := t, mode := .pipelined, options, total := calls.length, todo := calls }
  obtain ⟨new, burst⟩ := exists_burst client w r calls rfl
  rcases burst.ends with ⟨-, -, short⟩ | ⟨overflowed, -, -⟩
  · by_cases all : calls.length ≤ new.length
    · have sent := burst.sent
      rw [List.take_of_length_le all] at sent
      exact Or.inr (Or.inr sent)
    · exact Or.inr (Or.inl (World.aborted_of_course burst.steps.course (short (by omega))))
  · left
    show ((issue client w r calls).2.awaitNext client (issue client w r calls).1).stage = _
    rw [awaitNext_of_ne (by simp [overflowed])]
    exact overflowed

namespace SignerTask

variable {options : Options} {w₀ w : World σ κ} {b : Batch κ} {batches : List (Batch κ)}

theorem issued_launch (number : Nat) (beside : World.Beside client b.account w₀ w) :
    Issued options w₀ b (launch client .pipelined options w number b).1
      (launch client .pipelined options w number b).2.state := by
  have sent := Tracker.sent_open client w b.account
  unfold launch
  cases result : Tracker.open_ client w b.account with
  | mk answer w' =>
    rw [result] at sent
    cases answer with
    | error e => exact Or.inl ⟨e, rfl⟩
    | ok t =>
      obtain ⟨-, -, account, -, -⟩ := Tracker.open_eq_ok result
      let p := Runner.start client w' t .pipelined options b.calls
      have concluded := (steps_conclude client p.1 b.account number p.2).course
      rcases Runner.sent_start_pipelined client w' t options b.calls with overflowed | raised | all
      · refine Or.inl ⟨.signerTask b.account number .addition, ?_⟩
        simp only [conclude, overflowed]
      · exact Or.inr (Or.inl (World.aborted_of_course concluded raised))
      · refine Or.inr (Or.inr (Nat.le_trans ?_ (concluded.length_sentBy_le b.account)))
        have own : p.1.sentBy b.account =
            w₀.sentBy b.account ++ Sent.series b.account t.cursor.next b.calls := by
          rw [sent, account] at all
          rw [← beside.sentBy, World.sentBy_append all, Sent.filter_series]
        rw [own, List.length_append, Sent.length_series]

end SignerTask

/-! ### Batches in the end -/

/-- **What a batch has done all of whose calls were handed over**: it has done so under consecutive
nonces from the one that the node reported for its account. The outcomes that it reports are those
of waits for these calls, one after the other, and all of these waits are over. -/
structure Batch.Done (client : Client σ κ) (mode : Mode) (options : Options) (b : Batch κ)
    (first : Nat) (w w' : World σ κ) (subs : List Submission) (outcomes : List Outcome) : Prop where
  opens : b.calls ≠ [] → World.Opens client w w' b.account first
  sentBy : w'.sentBy b.account = w.sentBy b.account ++ Sent.series b.account first b.calls
  count : subs.length = b.calls.length
  each : ∀ (i : Nat) call, b.calls[i]? = some call → ∃ s, subs[i]? = some s ∧
    w.Handed client w' b.account (first + i) call s
  outcomes_eq : outcomes = options.policy.reported
    ((Submission.waits client.errors (options.levelOf mode) options.timeout w.now subs).map (·.1))
  past : Submission.waitsEnd client.errors (options.levelOf mode) options.timeout w.now
    (subs.take outcomes.length) ≤ w'.now

/-- A batch that reports outcomes has done what they are about. -/
theorem Batch.Report.done {mode : Mode} {options : Options} {b : Batch κ} {first : Nat}
    {w w' : World σ κ} {subs : List Submission} {outcomes : List Outcome}
    (h : b.Report client mode options first w w' subs outcomes)
    (opens : subs ≠ [] → World.Opens client w w' b.account first)
    (whole : subs.length = b.calls.length)
    (past : Submission.waitsEnd client.errors (options.levelOf mode) options.timeout w.now
      (subs.take outcomes.length) ≤ w'.now) :
    b.Done client mode options first w w' subs outcomes where
  opens := by
    intro some
    refine opens fun none => some ?_
    rw [none] at whole
    exact List.eq_nil_of_length_eq_zero whole.symm
  sentBy := by
    have sentBy := h.sentBy
    rwa [whole, List.take_length] at sentBy
  count := whole
  each := by
    intro i call listed
    have within : i < subs.length := (List.getElem?_eq_some_iff.mp listed).1.trans_eq whole.symm
    have found := List.getElem?_eq_getElem within
    obtain ⟨call', listed', handed⟩ := h.handed i _ found
    obtain rfl := Option.some.inj (listed.symm.trans listed')
    exact ⟨_, found, handed⟩
  outcomes_eq := h.outcomes_eq
  past := past

namespace Batch.Done

variable {mode : Mode} {options : Options} {b : Batch κ} {first : Nat} {v v' w w' : World σ κ}
  {subs : List Submission} {outcomes : List Outcome}

theorem mono (h : b.Done client mode options first w w' subs outcomes)
    (course : World.Course client w' v') (sentBy : v'.sentBy b.account = w'.sentBy b.account) :
    b.Done client mode options first w v' subs outcomes :=
  { h with
    opens := fun some => (h.opens some).since (.refl client b.account w) course
    sentBy := sentBy.trans h.sentBy
    each := by
      intro i call listed
      obtain ⟨s, found, handed⟩ := h.each i call listed
      exact ⟨s, found, handed.mono .refl course⟩
    past := h.past.trans course.now_le }

theorem since (h : b.Done client mode options first w w' subs outcomes)
    (before : World.Beside client b.account v w) :
    b.Done client mode options first v w' subs outcomes :=
  { h with
    opens := fun some => (h.opens some).since before .refl
    sentBy := by rw [h.sentBy, before.sentBy]
    each := by
      intro i call listed
      obtain ⟨s, found, handed⟩ := h.each i call listed
      exact ⟨s, found, handed.mono before.course .refl⟩
    outcomes_eq := before.now ▸ h.outcomes_eq
    past := before.now ▸ h.past }

/-- Without calls there is nothing to do. -/
theorem nil (none : b.calls = []) (course : World.Course client w w')
    (sentBy : w'.sentBy b.account = w.sentBy b.account) :
    b.Done client mode options first w w' [] [] where
  opens := fun some => absurd none some
  sentBy := by rw [none, sentBy, Sent.series, List.append_nil]
  count := by rw [none]; rfl
  each := by
    intro i call listed
    rw [none] at listed
    cases listed
  outcomes_eq := by
    rw [Submission.waits, List.map_nil]
    cases options.policy <;> rfl
  past := course.now_le

end Batch.Done

/-- **What the batches of a pipelined run have done in the end**, if their signal is not raised: all
calls of a batch whose task has outcomes were handed over, whatever became of them. -/
theorem done_runAcross {w : World σ κ} {options : Options} {batches : List (Batch κ)}
    (distinct : (batches.map (·.account)).Nodup)
    (unraised : (runAcross client w batches .pipelined options).2.aborted options = false) {i : Nat}
    {b : Batch κ} {t : SignerTask κ} (given : batches[i]? = some b)
    (found : (tasksOf client w batches .pipelined options).2[i]? = some t) {outcomes : List Outcome}
    (state : t.state = .ended (.ok outcomes)) :
    ∃ first subs, b.Done client .pipelined options first w
      (runAcross client w batches .pipelined options).2 subs outcomes := by
  have rounds := (runs_tasksOf client w batches .pipelined options).rounds
  have past := SignerTask.kept_over.rounds distinct
    (fun _ _ _ number beside => SignerTask.over_launch number beside) rounds i b t given found
  have issued := SignerTask.kept_issued.rounds distinct
    (fun _ _ _ number beside => SignerTask.issued_launch number beside) rounds i b t given found
  have gathered := SignerTask.course_join client (tasksOf client w batches .pipelined options).1 []
    none (tasksOf client w batches .pipelined options).2
  have sent := SignerTask.sent_join (tasksOf client w batches .pipelined options).1 [] none
    (tasksOf client w batches .pipelined options).2
  rw [← world_runAcross] at gathered sent
  rw [state] at past issued
  cases past with
  | ended report past =>
    rename_i first subs
    have report := report.mono gathered (World.sentBy_of_sent sent _)
    refine ⟨first, subs, report.done (report.opens distinct (List.mem_of_getElem? given)) ?_
      (past.trans gathered.now_le)⟩
    -- no signal was raised, so all calls were handed over
    rcases issued with ⟨e, failed⟩ | raised | all
    · cases failed
    · rw [World.aborted_of_course gathered raised] at unraised
      cases unraised
    · have made := congrArg List.length report.sentBy
      have most := report.length_le
      have kept := congrArg List.length (World.sentBy_of_sent sent b.account)
      rw [List.length_append, Sent.length_series, List.length_take] at made
      omega

end ShellSale
