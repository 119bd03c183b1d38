import ShellSale.Proofs.Batch.Accounting

/-!
## The nonce at which a batch starts

The batch of an account starts at the nonce that the node reports when the batch's tracker is
opened. Until then no time passes in a run of batches, and nothing is handed over for the account.

* `SignerTask.exists_numbered_launchAll`: where the calls of a batch start when the tasks of a run
  are launched.
* `Batch.Report.opens` is the main result, for what a run of batches reports.
* `sentBy_runAcross_of_not_mem`: a run hands over nothing for an account that has no batch.
-/

namespace ShellSale

variable {σ κ : Type}

/-- The tracker of an account is opened between two worlds, at the nonce that the node reports.
Since the first world no time has passed, and nothing was handed over for the account. -/
def World.Opens (client : Client σ κ) (w w' : World σ κ) (a : AccountId) (first : Nat) : Prop :=
  ∃ u, Beside client a w u ∧ (client.nonce u.node u.now a).1 = .ok first ∧
    (∃ t, (Tracker.open_ client u a).1 = .ok t ∧ t.cursor.next = first) ∧
    Course client (Tracker.open_ client u a).2 w'

theorem World.Opens.since {client : Client σ κ} {v v' w w' : World σ κ} {a : AccountId}
    {first : Nat} (h : Opens client w w' a first) (before : Beside client a v w)
    (after : Course client w' v') :
    Opens client v v' a first := by
  obtain ⟨u, beside, reported, opened, course⟩ := h
  exact ⟨u, before.trans beside, reported, opened, course.trans after⟩

namespace SignerTask

/-- What launching a task does once its tracker is opened. -/
theorem course_launch_of_open (client : Client σ κ) (mode : Mode) (options : Options)
    (w : World σ κ) (number : Nat) (b : Batch κ) :
    World.Course client (Tracker.open_ client w b.account).2
      (launch client mode options w number b).1 := by
  unfold launch
  rcases Tracker.open_ client w b.account with ⟨_ | t, w'⟩
  · exact .refl
  · exact (Runner.steps_proceed client w' _).course.trans (steps_conclude client ..).course

/-- What spawning a task does once its tracker is opened. -/
theorem course_spawn_of_open (client : Client σ κ) (mode : Mode) (options : Options)
    (w : World σ κ) (number : Nat) (b : Batch κ) :
    World.Course client (Tracker.open_ client w b.account).2
      (spawn client mode options w number b).1 := by
  refine spawn_induction
    (P := fun w' _ => World.Course client (Tracker.open_ client w b.account).2 w')
    (course_launch_of_open client mode options w number b) ?_
  intro w' t wake due _ course
  obtain ⟨r, nonce, outcome, running, -⟩ := exists_waiting_of_wake? due
  exact course.trans (steps_resume client w' running).course

/-- Tasks of other accounts leave the calls of an account alone. -/
theorem numbered_launchAll_of_not_mem (client : Client σ κ) (mode : Mode) (options : Options)
    (w : World σ κ) (number : Nat) {batches : List (Batch κ)} {a : AccountId} (first : Nat)
    (distinct : (batches.map (·.account)).Nodup) (others : a ∉ batches.map (·.account)) :
    Numbered a (w.sentBy a) first (launchAll client mode options w number batches).1
      (launchAll client mode options w number batches).2 := by
  have accounts := accounts_launchAll client mode options w number batches
  have faithful := allFaithful_launchAll mode options number distinct
    fun b _ => World.Beside.refl client b.account w
  refine { distinct := accounts ▸ distinct, own := ?_, series := ⟨[], ?_, ?_⟩ }
  · intro i t r found running
    obtain ⟨b, given, -⟩ := exists_getElem?_of_map_eq accounts found
    obtain ⟨account, state⟩ := faithful.each i b t given found
    rw [running] at state
    exact state.account_of_running.trans account.symm
  · rw [(beside_launchAll client mode options w number others).sentBy]
    exact (List.append_nil _).symm
  · intro i t r found account _
    exact absurd (account ▸ accounts ▸ List.mem_map_of_mem (List.mem_of_getElem? found)) others

/-- **Where the calls of a batch start** when the tasks of a run are launched: at the nonce at which
its tracker is opened in a world beside the one in which the run began. -/
theorem exists_numbered_launchAll (client : Client σ κ) (mode : Mode) (options : Options)
    (w : World σ κ) (number : Nat) {batches : List (Batch κ)}
    (distinct : (batches.map (·.account)).Nodup) {b : Batch κ} (mem : b ∈ batches) :
    ∃ u, World.Beside client b.account w u ∧
      World.Course client (Tracker.open_ client u b.account).2
        (launchAll client mode options w number batches).1 ∧
      ∀ first, (∀ t u', Tracker.open_ client u b.account = (.ok t, u') → t.cursor.next = first) →
        Numbered b.account (w.sentBy b.account) first
          (launchAll client mode options w number batches).1
          (launchAll client mode options w number batches).2 := by
  induction batches generalizing w number with
  | nil => cases mem
  | cons b' rest ih =>
    rw [List.map_cons, List.nodup_cons] at distinct
    let w₁ := (spawn client mode options w number b').1
    let t := (spawn client mode options w number b').2
    have launched : t.account = b'.account := account_spawn ..
    have others : b'.account ∉
        (launchAll client mode options w₁ (number + 1) rest).2.map (·.account) := by
      rw [accounts_launchAll]
      exact distinct.1
    rcases List.mem_cons.mp mem with rfl | later
    · -- the batch comes first, and no later one is of its account
      refine ⟨w, .refl client b.account w, ?_, ?_⟩
      · exact (course_spawn_of_open client mode options w number b).trans
          (course_launchAll client mode options w₁ (number + 1) rest)
      · intro first starts
        obtain ⟨calls, sentBy, next⟩ :=
          exists_series_spawn client mode options w number b starts
        have beside := beside_launchAll client mode options w₁ (number + 1) distinct.1
        have behind := numbered_launchAll_of_not_mem client mode options w₁ (number + 1) first
          distinct.2 distinct.1
        rw [← beside.sentBy] at behind
        exact behind.cons_self launched others (beside.sentBy.trans sentBy) next
    · have ne : b.account ≠ b'.account := fun same =>
        distinct.1 (same ▸ List.mem_map_of_mem later)
      have beside := (steps_spawn client mode options w number b').beside ne
      obtain ⟨u, before, course, numbered⟩ := ih w₁ (number + 1) distinct.2 later
      refine ⟨u, beside.trans before, course, ?_⟩
      intro first starts
      have behind := numbered first starts
      rw [beside.sentBy] at behind
      refine behind.cons_other (t := t) (launched.trans_ne ne.symm) (launched ▸ others) ?_
      intro r running
      obtain ⟨-, -, -, own⟩ := spawn_spec client mode options w number b'
      exact (own r.tracker.account (by rw [holder?, running])).trans launched.symm

end SignerTask

/-- Calls that are handed over one after the other tell where they start. -/
theorem Sent.first_eq_of_series_eq {a : AccountId} {m n : Nat} {calls more : List κ}
    (same : series a m calls = series a n more) (some : calls ≠ []) : m = n := by
  have nonces := congrArg (List.map (·.nonce)) same
  rw [map_nonce_series, map_nonce_series] at nonces
  cases calls with
  | nil => exact absurd rfl some
  | cons call rest =>
    cases more with
    | nil => cases nonces
    | cons other more => exact (List.cons.inj nonces).1

/-- **The nonce at which a batch starts** that a run of batches has ended and of which it handed
over some calls: the one at which the batch's tracker was opened. -/
theorem Batch.Report.opens {client : Client σ κ} {mode : Mode} {options : Options}
    {w : World σ κ} {batches : List (Batch κ)} (distinct : (batches.map (·.account)).Nodup)
    {b : Batch κ} (mem : b ∈ batches) {first : Nat} {subs : List Submission}
    {outcomes : List Outcome}
    (report : b.Report client mode options first w (runAcross client w batches mode options).2 subs
      outcomes) (some : subs ≠ []) :
    World.Opens client w (runAcross client w batches mode options).2 b.account first := by
  obtain ⟨u, beside, course, numbered⟩ := SignerTask.exists_numbered_launchAll client mode options
    { w with tasks := w.tasks + batches.length } (w.tasks + 1) distinct mem
  have before := beside_number client b.account w batches.length
  have rounds := (runs_tasksOf client w batches mode options).rounds
  have world := world_runAcross client w batches mode options
  have ended : (runAcross client w batches mode options).2.sentBy b.account =
      (tasksOf client w batches mode options).1.sentBy b.account := by
    rw [world]
    exact World.sentBy_of_sent (SignerTask.sent_join ..) _
  -- the calls start wherever the opening allows
  have only : ∀ n, (∀ t u', Tracker.open_ client u b.account = (.ok t, u') → t.cursor.next = n) →
      first = n := by
    intro n starts
    obtain ⟨calls, sentBy, -⟩ := ((numbered n starts).rounds rounds).series
    have same := report.sentBy.symm.trans (ended.trans sentBy)
    refine Sent.first_eq_of_series_eq (List.append_cancel_left same) ?_
    rw [ne_eq, List.take_eq_nil_iff, not_or]
    refine ⟨by simpa using some, ?_⟩
    intro empty
    have none := report.length_le
    rw [empty] at none
    exact some (List.eq_nil_of_length_eq_zero (Nat.le_zero.mp none))
  rcases opened : Tracker.open_ client u b.account with ⟨e | t, u'⟩
  · -- had the opening failed, they would start anywhere
    have wrong := only (first + 1) fun t u'' same => by
      rw [opened] at same
      cases same
    omega
  · obtain rfl : first = t.cursor.next := by
      refine only _ fun t' u'' same => ?_
      rw [opened] at same
      cases same
      rfl
    refine ⟨u, before.trans beside, Tracker.nonce_of_open opened, ⟨t, ?_, rfl⟩, ?_⟩
    · rw [opened]
    · rw [world]
      exact (course.trans (SignerTask.course_rounds rounds)).trans (SignerTask.course_join ..)

/-- **A run of batches hands over nothing for the others.** -/
theorem sentBy_runAcross_of_not_mem (client : Client σ κ) (w : World σ κ) {batches : List (Batch κ)}
    (mode : Mode) (options : Options) {a : AccountId} (distinct : (batches.map (·.account)).Nodup)
    (others : a ∉ batches.map (·.account)) :
    (runAcross client w batches mode options).2.sentBy a = w.sentBy a := by
  -- calls that may be said to start anywhere are none
  have numbered := fun first =>
    ((SignerTask.numbered_launchAll_of_not_mem client mode options
      { w with tasks := w.tasks + batches.length } (w.tasks + 1) first distinct others).rounds
        (runs_tasksOf client w batches mode options).rounds).series
  obtain ⟨calls, fromZero, -⟩ := numbered 0
  obtain ⟨more, fromOne, -⟩ := numbered 1
  have same := List.append_cancel_left (fromZero.symm.trans fromOne)
  obtain rfl : calls = [] := by
    by_contra some
    exact absurd (Sent.first_eq_of_series_eq same some) Nat.zero_ne_one
  rw [world_runAcross]
  exact (World.sentBy_of_sent (SignerTask.sent_join ..) a).trans
    (fromZero.trans (List.append_nil _))

end ShellSale
