import ShellSale.Proofs.Batch.Accounting

/-!
## Where the calls of batches come from

A batch hands over no call but its own, and under no account but its own. As this holds of a task
whatever happens to it, it holds of sets of tasks without any condition on their accounts, also when
two batches are of one account and one of them is refused.

* `World.HandsOver` says of two worlds which calls come in between.
* `Runner.handsOver_collect`: what a runner hands over after a wait, and what it has left to do.
* `handsOver_runBatch`, `handsOver_of_rounds` are the main results.
-/

namespace ShellSale

variable {σ κ : Type} {client : Client σ κ} {P Q : AccountId → κ → Prop}

/-! ### Calls between two worlds -/

theorem Sent.mem_series {a : AccountId} {n : Nat} {calls : List κ} {s : Sent κ}
    (mem : s ∈ series a n calls) : s.account = a ∧ s.call ∈ calls := by
  induction calls generalizing n with
  | nil => cases mem
  | cons call rest ih =>
    rcases List.mem_cons.mp mem with rfl | later
    · exact ⟨rfl, List.mem_cons_self⟩
    · obtain ⟨account, listed⟩ := ih later
      exact ⟨account, List.mem_cons_of_mem _ listed⟩

namespace World

variable {w w' w'' : World σ κ}

/-- Between two worlds, accounts hand over calls of some kind and no others. -/
def HandsOver (P : AccountId → κ → Prop) (w w' : World σ κ) : Prop :=
  ∃ new, w'.sent = w.sent ++ new ∧ ∀ s ∈ new, P s.account s.call

namespace HandsOver

/-- Nothing is handed over. -/
theorem of_sent (P : AccountId → κ → Prop) (h : w'.sent = w.sent) : HandsOver P w w' :=
  ⟨[], h.trans (List.append_nil _).symm, by simp⟩

theorem of_series {a : AccountId} {n : Nat} {calls : List κ}
    (h : w'.sent = w.sent ++ Sent.series a n calls) (all : ∀ call ∈ calls, P a call) :
    HandsOver P w w' := by
  refine ⟨_, h, ?_⟩
  intro s mem
  obtain ⟨rfl, listed⟩ := Sent.mem_series mem
  exact all s.call listed

theorem trans (h : HandsOver P w w') (h' : HandsOver P w' w'') : HandsOver P w w'' := by
  obtain ⟨new, sent, all⟩ := h
  obtain ⟨more, sent', all'⟩ := h'
  refine ⟨new ++ more, by rw [sent', sent, List.append_assoc], ?_⟩
  intro s mem
  exact (List.mem_append.mp mem).elim (all s) (all' s)

theorem mono (h : HandsOver P w w') (imp : ∀ a call, P a call → Q a call) : HandsOver Q w w' := by
  obtain ⟨new, sent, all⟩ := h
  exact ⟨new, sent, fun s mem => imp _ _ (all s mem)⟩

end HandsOver

end World

/-! ### Runners -/

namespace Runner

variable {w : World σ κ} {r : Runner κ}

/-- All that a runner may still hand over is of some kind. -/
def Offers (r : Runner κ) (P : AccountId → κ → Prop) : Prop :=
  ∀ call ∈ r.todo, P r.tracker.account call

theorem handsOver_proceed (client : Client σ κ) (w : World σ κ) (h : r.Offers P) :
    World.HandsOver P w (r.proceed client w).1 ∧ (r.proceed client w).2.Offers P := by
  obtain ⟨new, issued⟩ := exists_issued client w r r.todo
  constructor
  · refine .of_series (issued.grows.sent_of_sentBy issued.sentBy) ?_
    intro call mem
    exact h call (List.mem_of_mem_take mem)
  · intro call mem
    rw [proceed, todo_awaitNext] at mem
    rw [proceed, tracker_awaitNext, issued.account]
    rcases issued.todo with left | none
    · rw [left] at mem
      exact h call (List.mem_of_mem_drop mem)
    · -- the batch has given up the rest
      rw [none] at mem
      cases mem

/-- **After a wait** a runner hands over calls that it had to do, and has no others left to do. -/
theorem handsOver_collect (client : Client σ κ) (w : World σ κ) (h : r.Offers P) (nonce : Nat)
    (outcome : Outcome) :
    World.HandsOver P w (r.collect client w nonce outcome).1 ∧
      (r.collect client w nonce outcome).2.Offers P := by
  have told : World.HandsOver P w (r.heard client w nonce outcome) := .of_sent P (sent_heard ..)
  have offers : (r.withOutcome client w outcome).Offers P := h
  rw [collect_eq]
  split
  · refine ⟨told.trans (.of_sent P (World.sent_notify ..)), ?_⟩
    intro call mem
    cases mem
  · obtain ⟨handed, left⟩ := handsOver_proceed client (r.heard client w nonce outcome) offers
    exact ⟨told.trans handed, left⟩

end Runner

/-- **A batch of a single signer** hands over no call but its own. -/
theorem handsOver_runBatch (client : Client σ κ) (w : World σ κ) (t : Tracker) (mode : Mode)
    (options : Options) (calls : List κ) :
    World.HandsOver (fun a call => a = t.account ∧ call ∈ calls) w
      (runBatch client w t mode options calls).1 := by
  obtain ⟨issued, inv⟩ := Runner.exists_inv_runBatch client w t mode options calls
  obtain ⟨-, -, grows⟩ := Runner.acts_runBatch client w t mode options calls
  refine .of_series (grows.sent_of_sentBy inv.sentBy) ?_
  intro call mem
  exact ⟨rfl, List.mem_of_mem_take mem⟩

/-! ### Tasks -/

namespace SignerTask

variable {w : World σ κ} {t : SignerTask κ} {r : Runner κ} {tasks : List (SignerTask κ)}

/-- All that a task may still hand over is of some kind. -/
def Offers (t : SignerTask κ) (P : AccountId → κ → Prop) : Prop :=
  ∀ r, t.state = .running r → r.Offers P

theorem handsOver_conclude (h : r.Offers P) (w : World σ κ) (account : AccountId) (number : Nat) :
    World.HandsOver P w (conclude w account number r).1 ∧
      (conclude w account number r).2.Offers P := by
  refine ⟨.of_sent P (sent_conclude ..), ?_⟩
  intro r' running
  rw [running_conclude running]
  exact h

theorem handsOver_resume (client : Client σ κ) (w : World σ κ) (h : t.Offers P) :
    World.HandsOver P w (t.resume client w).1 ∧ (t.resume client w).2.Offers P := by
  have asleep : World.HandsOver P w w := .of_sent P rfl
  cases state : t.state with
  | ended result => simpa only [resume, state] using ⟨asleep, h⟩
  | running r =>
    cases stage : r.stage with
    | waiting nonce outcome wake =>
      simp only [resume, state, stage]
      obtain ⟨handed, offers⟩ := Runner.handsOver_collect client w (h r state) nonce outcome
      obtain ⟨concluded, left⟩ := handsOver_conclude offers _ t.account t.number
      exact ⟨handed.trans concluded, left⟩
    | finished => simpa only [resume, state, stage] using ⟨asleep, h⟩
    | overflowed => simpa only [resume, state, stage] using ⟨asleep, h⟩

/-- A task hands over calls of its batch from its launch on. -/
theorem handsOver_launch (client : Client σ κ) (mode : Mode) (options : Options) (w : World σ κ)
    (number : Nat) {b : Batch κ} (all : ∀ call ∈ b.calls, P b.account call) :
    World.HandsOver P w (launch client mode options w number b).1 ∧
      (launch client mode options w number b).2.Offers P := by
  have sent := Tracker.sent_open client w b.account
  unfold launch
  cases result : Tracker.open_ client w b.account with
  | mk answer w' =>
    rw [result] at sent
    have opened : World.HandsOver P w w' := .of_sent P sent
    cases answer with
    | error e =>
      refine ⟨opened, ?_⟩
      intro r running
      cases running
    | ok t =>
      obtain ⟨-, -, account, -, -⟩ := Tracker.open_eq_ok result
      let r : Runner κ :=
        { tracker := t, mode, options, total := b.calls.length, todo := b.calls }
      have offers : r.Offers P := by
        intro call mem
        rw [show r.tracker.account = b.account from account]
        exact all call mem
      obtain ⟨handed, ready⟩ := Runner.handsOver_proceed client w' offers
      obtain ⟨concluded, left⟩ := handsOver_conclude ready (r.proceed client w').1 b.account number
      exact ⟨(opened.trans handed).trans concluded, left⟩

theorem handsOver_spawn (client : Client σ κ) (mode : Mode) (options : Options) (w : World σ κ)
    (number : Nat) {b : Batch κ} (all : ∀ call ∈ b.calls, P b.account call) :
    World.HandsOver P w (spawn client mode options w number b).1 ∧
      (spawn client mode options w number b).2.Offers P := by
  refine spawn_induction (P := fun w' t => World.HandsOver P w w' ∧ t.Offers P)
    (handsOver_launch client mode options w number all) ?_
  rintro w' t wake - - ⟨handed, offers⟩
  obtain ⟨more, left⟩ := handsOver_resume client w' offers
  exact ⟨handed.trans more, left⟩

/-! ### Sets of tasks -/

theorem handsOver_launchAll (client : Client σ κ) (mode : Mode) (options : Options) (w : World σ κ)
    (number : Nat) {batches : List (Batch κ)}
    (all : ∀ b ∈ batches, ∀ call ∈ b.calls, P b.account call) :
    World.HandsOver P w (launchAll client mode options w number batches).1 ∧
      ∀ t ∈ (launchAll client mode options w number batches).2, t.Offers P := by
  induction batches generalizing w number with
  | nil => exact ⟨.of_sent P rfl, by simp [launchAll]⟩
  | cons b rest ih =>
    rw [List.forall_mem_cons] at all
    obtain ⟨handed, offers⟩ := handsOver_spawn client mode options w number all.1
    obtain ⟨more, others⟩ := ih (spawn client mode options w number b).1 (number + 1) all.2
    exact ⟨handed.trans more, List.forall_mem_cons.mpr ⟨offers, others⟩⟩

theorem handsOver_round {w w' : World σ κ} {tasks' : List (SignerTask κ)}
    (round : Round client w tasks w' tasks') (offers : ∀ t ∈ tasks, t.Offers P) :
    World.HandsOver P w w' ∧ ∀ t ∈ tasks', t.Offers P := by
  cases round with
  | @resume wake k t next found due =>
    have passed : World.HandsOver P w { w with now := max w.now wake } := .of_sent P rfl
    obtain ⟨handed, left⟩ := handsOver_resume client { w with now := max w.now wake }
      (offers t (List.mem_of_getElem? found))
    refine ⟨passed.trans handed, ?_⟩
    -- only this task goes on, the others are as they were
    intro t' mem
    rcases List.mem_or_eq_of_mem_set mem with mem | rfl
    · exact offers t' mem
    · exact left

theorem handsOver_rounds {p q : World σ κ × List (SignerTask κ)} (rounds : Rounds client p q)
    (offers : ∀ t ∈ p.2, t.Offers P) : World.HandsOver P p.1 q.1 := by
  have handed : World.HandsOver P p.1 q.1 ∧ ∀ t ∈ q.2, t.Offers P := by
    refine rounds.keep (P := fun w tasks => World.HandsOver P p.1 w ∧ ∀ t ∈ tasks, t.Offers P) ?_
      ⟨.of_sent P rfl, offers⟩
    rintro w tasks w' tasks' round ⟨handed, offers⟩
    obtain ⟨more, left⟩ := handsOver_round round offers
    exact ⟨handed.trans more, left⟩
  exact handed.1

end SignerTask

/-- The tasks of batches hand over no calls but those of the batches, whatever the order in which
they go on. -/
theorem handsOver_of_rounds {w : World σ κ} {batches : List (Batch κ)} {mode : Mode}
    {options : Options} {q : World σ κ × List (SignerTask κ)}
    (rounds : SignerTask.Rounds client (launchedOf client w batches mode options) q) :
    World.HandsOver (fun a call => ∃ b ∈ batches, a = b.account ∧ call ∈ b.calls) w q.1 := by
  have numbered : World.HandsOver (fun a call => ∃ b ∈ batches, a = b.account ∧ call ∈ b.calls) w
      { w with tasks := w.tasks + batches.length } := .of_sent _ rfl
  obtain ⟨launched, offers⟩ := SignerTask.handsOver_launchAll client mode options
    { w with tasks := w.tasks + batches.length } (w.tasks + 1)
    (P := fun a call => ∃ b ∈ batches, a = b.account ∧ call ∈ b.calls)
    fun b mem call listed => ⟨b, mem, rfl, listed⟩
  exact (numbered.trans launched).trans (SignerTask.handsOver_rounds rounds offers)

end ShellSale
