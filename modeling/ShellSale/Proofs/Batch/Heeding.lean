import ShellSale.Proofs.Batch.Alone
import ShellSale.Proofs.Batch.Numbering
import ShellSale.Proofs.Pipeline.Heeding

/-!
## Batches heed their abort signal

A batch looks at its signal before every call that it hands over. So whatever a runner, a task or a
set of tasks does to the world is a course that heeds the signal of their options, in both modes and
however the tasks are interleaved.

* `Runner.heeding_run`: a batch from any point to its end.
* `heeding_of_rounds`: the tasks of a set of batches, at any point of any order.
* `World.Heeding.early`: calls are handed over before the moment at which the signal is known to be
  raised.
-/

namespace ShellSale

variable {σ κ : Type} {client : Client σ κ}

namespace Runner

/-- The signal is looked at before each call. -/
theorem heeding_issue (client : Client σ κ) (w : World σ κ) (r : Runner κ) (calls : List κ) :
    World.Heeding client r.options w (issue client w r calls).1 := by
  induction calls generalizing w r with
  | nil => exact .refl
  | cons call rest ih =>
    unfold issue
    split
    · exact .refl
    · split
      · exact (World.Steps.notify (a := r.tracker.account) w _).heeding (World.sent_notify w _) _
      · rename_i calm
        split
        · exact .refl
        · rename_i w₁ t s submitted
          have below := (Tracker.Submitted.of_submit? submitted).below
          have handed : World.Heeding client r.options w w₁ := by
            rw [Tracker.submit?_of_lt below] at submitted
            cases submitted
            exact World.heeding_handOver w (Bool.not_eq_true _ ▸ calm) _ _ _
          exact handed.trans (ih w₁ { r with tracker := t, inFlight := r.inFlight ++ [s] })

theorem heeding_proceed (client : Client σ κ) (w : World σ κ) (r : Runner κ) :
    World.Heeding client r.options w (r.proceed client w).1 :=
  heeding_issue client w r r.todo

theorem heeding_collect (client : Client σ κ) (w : World σ κ) (r : Runner κ) (nonce : Nat)
    (outcome : Outcome) :
    World.Heeding client r.options w (r.collect client w nonce outcome).1 := by
  have told := (steps_heard client w r nonce outcome r.tracker.account).heeding
    (sent_heard client w r nonce outcome) r.options
  rw [collect_eq]
  split
  · exact told.trans ((World.Steps.notify (a := r.tracker.account) _ _).heeding
      (World.sent_notify _ _) _)
  · exact told.trans (heeding_proceed client _ (r.withOutcome client w outcome))

theorem options_proceed (client : Client σ κ) (w : World σ κ) (r : Runner κ) :
    (r.proceed client w).2.options = r.options := by
  obtain ⟨new, issued⟩ := exists_issued client w r r.todo
  have same : (r.proceed client w).2.options = (issue client w r r.todo).2.options := by
    unfold proceed awaitNext
    dsimp only
    split <;> rfl
  exact same.trans issued.options

/-- A runner keeps its options. -/
theorem options_collect (client : Client σ κ) (w : World σ κ) (r : Runner κ) (nonce : Nat)
    (outcome : Outcome) : (r.collect client w nonce outcome).2.options = r.options := by
  rw [collect_eq]
  split
  · rfl
  · exact options_proceed client _ (r.withOutcome client w outcome)

/-- **A batch from any point to its end** heeds its signal. -/
theorem heeding_run (client : Client σ κ) (w : World σ κ) (r : Runner κ) :
    World.Heeding client r.options w (run client w r).1 := by
  induction w, r using run.induct client with
  | case1 w r nonce outcome wake stage p =>
    rename_i ih
    rw [run_of_waiting stage]
    have passed : World.Heeding client r.options w { w with now := max w.now wake } :=
      World.Course.heeding (.single (.pass wake)) rfl r.options
    have collected := heeding_collect client { w with now := max w.now wake } r nonce outcome
    rw [options_collect] at ih
    exact (passed.trans collected).trans ih
  | case2 w r ended =>
    rw [run_of_ended ended]

end Runner

theorem heeding_runBatch (client : Client σ κ) (w : World σ κ) (t : Tracker) (mode : Mode)
    (options : Options) (calls : List κ) :
    World.Heeding client options w (runBatch client w t mode options calls).1 := by
  let r : Runner κ := { tracker := t, mode, options, total := calls.length, todo := calls }
  have ran := Runner.heeding_run client (r.proceed client w).1 (r.proceed client w).2
  rw [Runner.options_proceed] at ran
  exact (Runner.heeding_proceed client w r).trans ran

namespace SignerTask

variable {o : Options}

theorem heeding_launch (client : Client σ κ) (mode : Mode) (o : Options) (w : World σ κ)
    (number : Nat) (b : Batch κ) :
    World.Heeding client o w (launch client mode o w number b).1 := by
  have opened := (Tracker.steps_open client w b.account).heeding (Tracker.sent_open ..) o
  unfold launch
  cases result : Tracker.open_ client w b.account with
  | mk answer w' =>
    rw [result] at opened
    cases answer with
    | error e => exact opened
    | ok t =>
      let r : Runner κ :=
        { tracker := t, mode, options := o, total := b.calls.length, todo := b.calls }
      have begun := Runner.heeding_proceed client w' r
      have concluded := (steps_conclude client (r.proceed client w').1 b.account number
        (r.proceed client w').2).heeding (sent_conclude ..) o
      exact (opened.trans begun).trans concluded

/-- A task that is resumed heeds the signal of its runner. -/
theorem heeding_resume (client : Client σ κ) (w : World σ κ) {t : SignerTask κ} {r : Runner κ}
    (running : t.state = .running r) :
    World.Heeding client r.options w (t.resume client w).1 := by
  simp only [resume, running]
  split
  · rename_i nonce outcome wake _
    have concluded := (steps_conclude client (r.collect client w nonce outcome).1 t.account t.number
      (r.collect client w nonce outcome).2).heeding (sent_conclude ..) r.options
    exact (Runner.heeding_collect client w r nonce outcome).trans concluded
  · exact .refl

theorem options_resume (client : Client σ κ) (w : World σ κ) {t : SignerTask κ} {r r' : Runner κ}
    (running : t.state = .running r) (running' : (t.resume client w).2.state = .running r') :
    r'.options = r.options := by
  simp only [resume, running] at running'
  split at running'
  · rw [running_conclude running']
    exact Runner.options_collect ..
  · rw [running] at running'
    cases running'
    rfl

theorem options_launch (client : Client σ κ) (mode : Mode) (o : Options) (w : World σ κ)
    (number : Nat) (b : Batch κ) {r : Runner κ}
    (running : (launch client mode o w number b).2.state = .running r) : r.options = o := by
  unfold launch at running
  split at running
  · cases running
  · rw [running_conclude running]
    exact Runner.options_proceed ..

/-- A task that is spawned heeds the signal, and goes on with the same options. -/
theorem heeding_spawn (client : Client σ κ) (mode : Mode) (o : Options) (w : World σ κ)
    (number : Nat) (b : Batch κ) :
    World.Heeding client o w (spawn client mode o w number b).1 ∧
      ∀ r, (spawn client mode o w number b).2.state = .running r → r.options = o := by
  let P (w' : World σ κ) (t : SignerTask κ) : Prop :=
    World.Heeding client o w w' ∧ ∀ r, t.state = .running r → r.options = o
  refine spawn_induction (P := P) ⟨heeding_launch client mode o w number b, ?_⟩ ?_
  · exact fun r => options_launch client mode o w number b
  · rintro w' t wake due - ⟨heeds, same⟩
    obtain ⟨r, nonce, outcome, running, -⟩ := exists_waiting_of_wake? due
    have more := heeding_resume client w' running
    rw [same r running] at more
    exact ⟨heeds.trans more, fun r' running' =>
      (options_resume client w' running running').trans (same r running)⟩

theorem heeding_launchAll (client : Client σ κ) (mode : Mode) (o : Options) (w : World σ κ)
    (number : Nat) (batches : List (Batch κ)) :
    World.Heeding client o w (launchAll client mode o w number batches).1 := by
  induction batches generalizing w number with
  | nil => exact .refl
  | cons b rest ih => exact (heeding_spawn client mode o w number b).1.trans (ih _ _)

/-- All runners of some tasks have the same options. -/
def AllWith (o : Options) (tasks : List (SignerTask κ)) : Prop :=
  ∀ t ∈ tasks, ∀ r, t.state = .running r → r.options = o

theorem allWith_launchAll (client : Client σ κ) (mode : Mode) (o : Options) (w : World σ κ)
    (number : Nat) (batches : List (Batch κ)) :
    AllWith o (launchAll client mode o w number batches).2 := by
  induction batches generalizing w number with
  | nil => simp [AllWith, launchAll]
  | cons b rest ih =>
    intro t mem r running
    rcases List.mem_cons.mp mem with rfl | mem
    · exact (heeding_spawn client mode o w number b).2 r running
    · exact ih _ _ t mem r running

/-- **A round** heeds the signal, and all runners go on with the same options. -/
theorem AllWith.round {w w' : World σ κ} {tasks tasks' : List (SignerTask κ)}
    (round : Round client w tasks w' tasks') (h : AllWith o tasks) :
    World.Heeding client o w w' ∧ AllWith o tasks' := by
  cases round with
  | @resume wake k t next found due =>
    obtain ⟨r, nonce, outcome, running, -⟩ := exists_waiting_of_wake? due
    have mine : r.options = o := h t (List.mem_of_getElem? found) r running
    have passed : World.Heeding client o w { w with now := max w.now wake } :=
      World.Course.heeding (.single (.pass wake)) rfl o
    have heeded := heeding_resume client { w with now := max w.now wake } running
    rw [mine] at heeded
    refine ⟨passed.trans heeded, ?_⟩
    intro t' mem r' running'
    rcases List.mem_or_eq_of_mem_set mem with mem | rfl
    · exact h t' mem r' running'
    · exact (options_resume client _ running running').trans mine

/-- **Tasks heed the signal** from round to round. -/
theorem AllWith.heeding_rounds {p q : World σ κ × List (SignerTask κ)} (h : AllWith o p.2)
    (rounds : Rounds client p q) : World.Heeding client o p.1 q.1 := by
  let P (w : World σ κ) (tasks : List (SignerTask κ)) : Prop :=
    World.Heeding client o p.1 w ∧ AllWith o tasks
  have heeded : P q.1 q.2 := by
    refine rounds.keep (P := P) ?_ ⟨.refl, h⟩
    rintro w tasks w' tasks' round ⟨heeds, same⟩
    obtain ⟨more, kept⟩ := same.round round
    exact ⟨heeds.trans more, kept⟩
  exact heeded.1

end SignerTask

/-- **A set of batches**, one task for each, heeds its signal, whatever the order in which its tasks
go on. -/
theorem heeding_of_rounds {w : World σ κ} {batches : List (Batch κ)} {mode : Mode} {o : Options}
    {q : World σ κ × List (SignerTask κ)}
    (rounds : SignerTask.Rounds client (launchedOf client w batches mode o) q) :
    World.Heeding client o w q.1 := by
  have numbered : World.Heeding client o w { w with tasks := w.tasks + batches.length } :=
    World.Course.heeding (.single (.number batches.length)) rfl o
  have launched := SignerTask.heeding_launchAll client mode o
    { w with tasks := w.tasks + batches.length } (w.tasks + 1) batches
  exact (numbered.trans launched).trans
    ((SignerTask.allWith_launchAll client mode o _ _ batches).heeding_rounds rounds)

/-! ### Heeding by the clock -/

namespace World

variable {o : Options} {w w' : World σ κ} {handle : String} {at_ : Nat}

/-- A handle that is live and will be fired at a moment. -/
structure FiresAt (w : World σ κ) (handle : String) (at_ : Nat) : Prop where
  live : handle ∈ w.aborts.live
  due : (at_, handle) ∈ w.aborts.due

/-- From that moment on the signal of the handle is raised. -/
theorem FiresAt.aborted (h : w.FiresAt handle at_) (abort : o.abort = some handle)
    (le : at_ ≤ w.now) : w.aborted o = true := by
  rw [World.aborted, abort]
  refine Bool.or_eq_true_iff.mpr (Or.inr (Bool.and_eq_true_iff.mpr ⟨?_, ?_⟩))
  · exact List.contains_iff_mem.mpr h.live
  · exact List.any_eq_true.mpr ⟨(at_, handle), h.due, by simpa using le⟩

theorem FiresAt.move (h : w.FiresAt handle at_) (move : Move client w w') :
    w'.FiresAt handle at_ := by
  cases move with
  | work step =>
    cases step with
    | handOver nonce call => exact ⟨h.live, List.mem_append_left _ h.due⟩
    | _ => exact ⟨h.live, h.due⟩
  | _ => exact ⟨h.live, h.due⟩

theorem FiresAt.course (h : w.FiresAt handle at_) (course : Course client w w') :
    w'.FiresAt handle at_ := by
  induction course with
  | refl => exact h
  | tail _ move ih => exact ih.move move

/-- What one thing adds to the calls of an account: nothing, or a call at the present moment. -/
theorem Move.exists_callsBy_eq (move : Move client w w') (a : AccountId) :
    ∃ new, w'.callsBy a = w.callsBy a ++ new ∧ (∀ c ∈ new, c.1 = w.now) ∧
      (w'.sent = w.sent → new = []) := by
  have none : w'.callsBy a = w.callsBy a → ∃ new, w'.callsBy a = w.callsBy a ++ new ∧
      (∀ c ∈ new, c.1 = w.now) ∧ (w'.sent = w.sent → new = []) :=
    fun same => ⟨[], same.trans (List.append_nil _).symm, by simp, fun _ => rfl⟩
  cases move with
  | pass wake => exact none rfl
  | number count => exact none rfl
  | line l => exact none (callsBy_line w l a)
  | work step =>
    cases step with
    | ask => exact none rfl
    | claim => exact none rfl
    | release => exact none rfl
    | tell notices => exact none (callsBy_notifyAt w notices a)
    | handOver nonce call =>
      refine ⟨_, callsBy_handOver client w a _ nonce call, ?_, ?_⟩
      · intro c mem
        split at mem
        · rw [List.mem_singleton.mp mem]
        · cases mem
      · intro same
        rw [sent_handOver] at same
        exact absurd (List.append_right_eq_self.mp same) (by simp)

/-- **Heeding by the clock.** From the moment on at which the handle of the signal is fired, no call
is handed over. -/
theorem Heeding.early (h : Heeding client o w w') (fires : w.FiresAt handle at_)
    (abort : o.abort = some handle) (a : AccountId) :
    ∃ new, w'.callsBy a = w.callsBy a ++ new ∧ ∀ c ∈ new, c.1 < at_ := by
  induction h with
  | refl => exact ⟨[], (List.append_nil _).symm, by simp⟩
  | @tail u v path step ih =>
    obtain ⟨new, before, early⟩ := ih
    obtain ⟨more, added, now, quiet⟩ := step.move.exists_callsBy_eq a
    refine ⟨new ++ more, by rw [added, before, List.append_assoc], ?_⟩
    intro c mem
    rcases List.mem_append.mp mem with mem | mem
    · exact early c mem
    · rw [now c mem]
      by_contra late
      -- the signal is raised by now, so this step hands over nothing
      have raised := (fires.course (Heeding.course path)).aborted abort (Nat.le_of_not_lt late)
      rw [quiet (step.heeds raised)] at mem
      cases mem

end World

end ShellSale
