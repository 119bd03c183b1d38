import Mathlib.Data.List.Nodup
import ShellSale.Proofs.Batch.Work
import ShellSale.Proofs.Pool.Registry

/-!
## Runs of batches as moves of a pool

A run of batches starts its tasks one after the other and then lets time pass from the end of one
wait to the end of the next. Each of these steps is a few moves of a pool: a task is launched by a
claim and the answer of the node, it goes on when its wait has ended, and nothing else happens in
between. So a run of batches is one order of moves among all, and what holds for every order of
moves holds for it, whichever task goes on first of several whose waits end at the same moment.

* `Pool.Shows` ties a pool to the tasks of a run: their trackers are among its holders, and those
  that have ended are among its ended ones.
* `Pool.exists_shows_spawn`, `Pool.Shows.exists_round`: the moves that start a task, and those of a
  round.
* `Pool.exists_play_of_rounds`: every state of a run is that of a pool after some moves, whatever
  the order of its rounds, and `Pool.nodup_held_of_rounds` is what follows for the accounts.
* `Pool.exists_play_runAcross` is the same for a whole run.
-/

namespace ShellSale

variable {σ κ : Type} {client : Client σ κ}

namespace SignerTask

/-- What a task under way is among the holders of a pool. -/
def asHolder? (t : SignerTask κ) : Option (Holder κ) :=
  match t.state with
  | .running r => some (.batch t.number r)
  | .ended _ => none

/-- A task that has ended. -/
def asEnded? (t : SignerTask κ) : Option (SignerTask κ) :=
  match t.state with
  | .running _ => none
  | .ended _ => some t

/-- A task holds no account but its own. -/
def Own (t : SignerTask κ) : Prop :=
  ∀ a, t.holder? = some a → a = t.account

theorem own_launch (client : Client σ κ) (mode : Mode) (options : Options) (w : World σ κ)
    (number : Nat) (b : Batch κ) : (launch client mode options w number b).2.Own := by
  intro a holds
  rw [account_launch]
  exact holder?_launch client mode options w number b holds

theorem Own.resume {t : SignerTask κ} (h : t.Own) (client : Client σ κ) (w : World σ κ) {wake : Nat}
    (due : t.wake? = some wake) : (t.resume client w).2.Own := by
  intro a holds
  rw [account_resume]
  exact h a (holder?_resume client w due holds)

theorem filterMap_asHolder?_of_ended {tasks : List (SignerTask κ)}
    (ended : ∀ t ∈ tasks, ∃ result, t.state = .ended result) :
    tasks.filterMap asHolder? = [] ∧ tasks.filterMap asEnded? = tasks := by
  induction tasks with
  | nil => exact ⟨rfl, rfl⟩
  | cons t rest ih =>
    rw [List.forall_mem_cons] at ended
    obtain ⟨⟨result, state⟩, others⟩ := ended
    obtain ⟨none, all⟩ := ih others
    have gone : t.asHolder? = .none := by rw [asHolder?, state]
    have listed : t.asEnded? = some t := by rw [asEnded?, state]
    rw [List.filterMap_cons_none gone, List.filterMap_cons_some listed, none, all]
    exact ⟨rfl, rfl⟩

end SignerTask

theorem Holder.ofTask_eq (p : World σ κ × SignerTask κ) :
    Holder.ofTask p =
      { world := p.1, holder? := p.2.asHolder?, ended? := p.2.asEnded? } := by
  unfold Holder.ofTask SignerTask.asHolder? SignerTask.asEnded?
  cases p.2.state <;> rfl

namespace Pool

variable {before p p' : Pool σ κ} {w w' : World σ κ} {tasks tasks' : List (SignerTask κ)}
  {mode : Mode} {options : Options}

theorem play_append (client : Client σ κ) (p : Pool σ κ) (moves more : List (Move σ κ)) :
    p.play client (moves ++ more) = (p.play client moves).play client more :=
  List.foldl_append ..

/-! ### Pools in which nobody but tasks has a tracker -/

/-- No caller has a tracker open, so nobody takes reports but tasks. -/
def Uncalled (p : Pool σ κ) : Prop :=
  ∀ h ∈ p.holders, ∀ t, h ≠ .caller t

/-- Without callers, all that changes as time passes are the clock and the abort signals. -/
theorem Uncalled.advance (h : p.Uncalled) (client : Client σ κ) (later : Nat) :
    p.advance client later =
      { p with
        world := { p.world with
          now := max p.world.now later
          aborts := p.world.aborts.settle later } } := by
  have alone : ∀ x ∈ p.holders,
      x.settle client.errors later = x ∧ x.notices client.errors later = [] := by
    intro x mem
    cases x with
    | opening a job => exact ⟨rfl, rfl⟩
    | caller t => exact absurd rfl (h _ mem t)
    | batch number r => exact ⟨rfl, rfl⟩
  have settled : p.holders.map (·.settle client.errors later) = p.holders :=
    (List.map_congr_left fun x mem => (alone x mem).1).trans (List.map_id _)
  have quiet : p.holders.flatMap (·.notices client.errors later) = [] :=
    List.flatMap_eq_nil_iff.mpr fun x mem => (alone x mem).2
  rw [Pool.advance, settled, quiet, World.notifyAt, List.map_nil, List.append_nil]

/-- Letting time pass, while the node and the abort signals stay as they are. -/
theorem Uncalled.play_pass (h : p.Uncalled) (client : Client σ κ) (wake : Nat) :
    p.play client [.pass (wake - p.world.now), .outside p.world.node p.world.aborts] =
      { p with world := { p.world with now := max p.world.now wake } } := by
  have moment : max p.world.now (p.world.now + (wake - p.world.now)) = max p.world.now wake := by
    omega
  rw [play, List.foldl_cons, List.foldl_cons, List.foldl_nil, step, step, h.advance, moment]

/-! ### Pools that show the tasks of a run -/

/-- What a pool is when tasks run beside the holders and the ended tasks there were before. -/
structure Shows (before p : Pool σ κ) (q : World σ κ × List (SignerTask κ)) : Prop where
  world : p.world = q.1
  holders : p.holders.Perm (q.2.filterMap SignerTask.asHolder? ++ before.holders)
  ended : p.ended.Perm (q.2.filterMap SignerTask.asEnded? ++ before.ended)
  own : ∀ t ∈ q.2, t.Own

theorem Shows.uncalled (h : before.Shows p (w, tasks)) (uncalled : before.Uncalled) :
    p.Uncalled := by
  intro x mem
  rcases List.mem_append.mp (h.holders.mem_iff.mp mem) with task | other
  · obtain ⟨t, -, is_task⟩ := List.mem_filterMap.mp task
    unfold SignerTask.asHolder? at is_task
    split at is_task
    · obtain rfl := Option.some.inj is_task
      rintro t ⟨⟩
    · cases is_task
  · exact uncalled x other

/-- Tasks that are started when others run already. -/
theorem Shows.append (h : before.Shows p (w, tasks)) (h' : p.Shows p' (w', tasks')) :
    before.Shows p' (w', tasks ++ tasks') where
  world := h'.world
  holders := by
    rw [List.filterMap_append, List.append_assoc]
    refine h'.holders.trans ((h.holders.append_left _).trans ?_)
    rw [← List.append_assoc, ← List.append_assoc]
    exact List.perm_append_comm.append_right _
  ended := by
    rw [List.filterMap_append, List.append_assoc]
    refine h'.ended.trans ((h.ended.append_left _).trans ?_)
    rw [← List.append_assoc, ← List.append_assoc]
    exact List.perm_append_comm.append_right _
  own t mem := (List.mem_append.mp mem).elim (h.own t) (h'.own t)

/-- Whoever is among the holders is the one who is found under the account. -/
theorem Leased.holder?_of_mem (leased : p.Leased) {x : Holder κ} (mem : x ∈ p.holders) :
    p.holder? x.account = some x := by
  cases found : p.holder? x.account with
  | none => exact absurd (List.mem_map_of_mem mem) (holder?_eq_none_iff.mp found)
  | some y =>
    obtain ⟨account, split⟩ := exists_of_holder? found
    exact congrArg some (List.inj_on_of_nodup_map leased.nodup
      (split.mem_iff.mpr List.mem_cons_self) mem account)

/-! ### Starting a task -/

/-- **A task is launched** by a claim and the answer of the node. If the account is held already,
the claim is all. -/
theorem exists_shows_launch (client : Client σ κ) (p : Pool σ κ) (mode : Mode) (options : Options)
    (number : Nat) (b : Batch κ) :
    ∃ moves, p.Shows (p.play client moves)
      ((SignerTask.launch client mode options p.world number b).1,
        [(SignerTask.launch client mode options p.world number b).2]) := by
  have own := SignerTask.own_launch client mode options p.world number b
  let job : Job κ := ⟨number, mode, options, b.calls⟩
  by_cases held : b.account ∈ p.world.registry.held
  · refine ⟨[.claim b.account (some job)], ?_⟩
    have refused : SignerTask.launch client mode options p.world number b =
        (p.world, job.failed b.account (.alreadyOpen b.account)) := by
      simp only [SignerTask.launch, Tracker.open_of_mem client held, Job.failed, job]
    rw [refused] at own ⊢
    rw [play, List.foldl_cons, List.foldl_nil, step, claim_of_mem held]
    exact { world := rfl, holders := .refl _, ended := .refl _, own := by simpa using own }
  · refine ⟨[.claim b.account (some job), .work b.account .answer], ?_⟩
    have launched := launch_eq client held job
    -- the task claims its account and is answered, and then it holds the account or has ended
    rw [Holder.ofTask_eq] at launched
    rw [play, List.foldl_cons, List.foldl_cons, List.foldl_nil, launched]
    exact {
      world := rfl
      holders := by
        rw [List.filterMap_cons, List.filterMap_nil]
        cases SignerTask.asHolder? _ <;> exact .refl _
      ended := by
        rw [List.filterMap_cons, List.filterMap_nil]
        cases SignerTask.asEnded? _ <;> exact .refl _
      own := by simpa using own }

/-- **A task goes on** when its wait has ended. -/
theorem Shows.resume (client : Client σ κ) (leased : p.Leased) (h : before.Shows p (w, tasks))
    {k wake : Nat} {t : SignerTask κ} (found : tasks[k]? = some t) (waits : t.wake? = some wake)
    (passed : wake ≤ w.now) :
    before.Shows (p.play client [.work t.account .resume])
      ((t.resume client w).1, tasks.set k (t.resume client w).2) := by
  obtain ⟨r, nonce, outcome, running, stage⟩ := SignerTask.exists_waiting_of_wake? waits
  have own := h.own t (List.mem_of_getElem? found)
  have world : p.world = w := h.world
  -- the task is the holder of its account
  have account : r.tracker.account = t.account := own _ (by rw [SignerTask.holder?, running])
  have is_task : Holder.task t.number r = t := by rw [Holder.task, account, ← running]
  have listed : t.asHolder? = some (.batch t.number r) := by rw [SignerTask.asHolder?, running]
  obtain ⟨front, back, rfl, set⟩ := SignerTask.exists_split found
  have shown := h.holders.trans
    ((perm_filterMap_middle SignerTask.asHolder? t front back).append_right before.holders)
  rw [listed] at shown
  have holder : p.holder? t.account = some (.batch t.number r) := by
    rw [← account]
    exact leased.holder?_of_mem (shown.mem_iff.mpr List.mem_cons_self)
  have others : (p.others t.account).Perm
      ((front ++ back).filterMap SignerTask.asHolder? ++ before.holders) :=
    ((exists_of_holder? holder).2.symm.trans shown).cons_inv
  -- its wait is over, so resuming the holder is resuming the task
  have due : (Holder.task t.number r).wake?.any (· ≤ p.world.now) = true := by
    rw [is_task, waits, world]
    exact decide_eq_true passed
  have worked : (Holder.batch t.number r).work client p.world .resume =
      Holder.ofTask (t.resume client w) := by
    rw [Holder.work, if_pos due, is_task, world]
  rw [Holder.ofTask_eq] at worked
  rw [play, List.foldl_cons, List.foldl_nil, step, work_of_holder? client holder, worked, set]
  refine { world := rfl, holders := ?_, ended := ?_, own := ?_ }
  · exact perm_filterMap_insert SignerTask.asHolder? _ others
  · have gone : t.asEnded? = none := by rw [SignerTask.asEnded?, running]
    have past := h.ended.trans
      ((perm_filterMap_middle SignerTask.asEnded? t front back).append_right before.ended)
    rw [gone] at past
    exact perm_filterMap_insert SignerTask.asEnded? _ past
  · intro t' mem
    rcases List.mem_append.mp mem with mem | mem
    · exact h.own t' (List.mem_append_left _ mem)
    · rcases List.mem_cons.mp mem with rfl | mem
      · exact own.resume client w waits
      · exact h.own t' (List.mem_append_right _ (List.mem_cons_of_mem _ mem))

/-- A task goes on as long as no time passes. -/
theorem Shows.exists_pursue (client : Client σ κ) (leased : p.Leased) {t : SignerTask κ}
    (h : before.Shows p (w, [t])) :
    ∃ moves, before.Shows (p.play client moves)
      ((t.pursue client w).1, [(t.pursue client w).2]) := by
  induction w, t using SignerTask.pursue.induct client generalizing p with
  | case1 w t asleep =>
    rw [SignerTask.pursue_of_none asleep]
    exact ⟨[], h⟩
  | case2 w t wake waits due _ =>
    rename_i ih
    rw [SignerTask.pursue_of_some waits, if_pos due]
    have resumed := h.resume client leased (k := 0) rfl waits due
    obtain ⟨more, shows⟩ := ih (leased.play client [.work t.account .resume]) resumed
    exact ⟨.work t.account .resume :: more, shows⟩
  | case3 w t wake waits later =>
    rw [SignerTask.pursue_of_some waits, if_neg later]
    exact ⟨[], h⟩

/-- **The moves that start a task.** -/
theorem exists_shows_spawn (client : Client σ κ) (leased : p.Leased) (mode : Mode)
    (options : Options) (number : Nat) (b : Batch κ) :
    ∃ moves, p.Shows (p.play client moves)
      ((SignerTask.spawn client mode options p.world number b).1,
        [(SignerTask.spawn client mode options p.world number b).2]) := by
  obtain ⟨moves, launched⟩ := exists_shows_launch client p mode options number b
  rw [SignerTask.spawn]
  split
  · obtain ⟨more, shows⟩ := launched.exists_pursue client (leased.play client moves)
    exact ⟨moves ++ more, by rwa [play_append]⟩
  · exact ⟨moves, launched⟩

/-- The moves that start all tasks of a run. -/
theorem exists_shows_launchAll (client : Client σ κ) (leased : p.Leased) (mode : Mode)
    (options : Options) (number : Nat) (batches : List (Batch κ)) :
    ∃ moves, p.Shows (p.play client moves)
      (SignerTask.launchAll client mode options p.world number batches) := by
  induction batches generalizing p number with
  | nil =>
    exact ⟨[], {
      world := rfl
      holders := .refl _
      ended := .refl _
      own := by simp [SignerTask.launchAll] }⟩
  | cons b rest ih =>
    obtain ⟨moves, started⟩ := exists_shows_spawn client leased mode options number b
    obtain ⟨more, others⟩ := ih (leased.play client moves) (number + 1)
    rw [started.world] at others
    exact ⟨moves ++ more, by
      rw [play_append]
      exact started.append others⟩

/-! ### Rounds -/

/-- **The moves of a round**: time passes to the end of the next wait, and the task goes on. -/
theorem Shows.exists_round (h : before.Shows p (w, tasks)) (leased : p.Leased)
    (uncalled : before.Uncalled) (round : SignerTask.Round client w tasks w' tasks') :
    ∃ moves, before.Shows (p.play client moves) (w', tasks') := by
  cases round with
  | @resume wake k t next found due =>
    obtain rfl : p.world = w := h.world
    have passed := (h.uncalled uncalled).play_pass client wake
    have later : before.Shows { p with world := { p.world with now := max p.world.now wake } }
        ({ p.world with now := max p.world.now wake }, tasks) :=
      { h with world := rfl }
    have still := leased.play client
      [.pass (wake - p.world.now), .outside p.world.node p.world.aborts]
    rw [passed] at still
    have resumed := later.resume client still found due (Nat.le_max_right ..)
    refine ⟨[.pass (wake - p.world.now), .outside p.world.node p.world.aborts] ++
      [.work t.account .resume], ?_⟩
    rw [play_append, passed]
    exact resumed

/-! ### Whole runs -/

/-- The numbers that tell the tasks of a run apart are taken. -/
def numbered (p : Pool σ κ) (count : Nat) : Pool σ κ :=
  { p with world := { p.world with tasks := p.world.tasks + count } }

section

variable {batches : List (Batch κ)} {q : World σ κ × List (SignerTask κ)}

/-- **A run of batches is an order of moves.** Whatever the order of its rounds, each state that it
goes through is that of a pool after some moves. -/
theorem exists_play_of_rounds (leased : p.Leased) (uncalled : p.Uncalled)
    (rounds : SignerTask.Rounds client (launchedOf client p.world batches mode options) q) :
    ∃ moves, (p.numbered batches.length).Shows
      ((p.numbered batches.length).play client moves) q := by
  have ready : (p.numbered batches.length).Leased := { leased with }
  refine rounds.keep (P := fun w tasks => ∃ moves, (p.numbered batches.length).Shows
    ((p.numbered batches.length).play client moves) (w, tasks)) ?_
      (exists_shows_launchAll client ready mode options (p.world.tasks + 1) batches)
  rintro w tasks w' tasks' round ⟨moves, shows⟩
  obtain ⟨more, shows'⟩ := shows.exists_round (ready.play client moves) uncalled round
  exact ⟨moves ++ more, by rwa [play_append]⟩

/-- **The accounts of a run.** At any point of any order of rounds, the accounts of the tasks under
way differ from one another and from those that were held before. -/
theorem nodup_held_of_rounds (leased : p.Leased) (uncalled : p.Uncalled)
    (rounds : SignerTask.Rounds client (launchedOf client p.world batches mode options) q) :
    (SignerTask.holders q.2 ++ p.world.registry.held).Nodup := by
  have ready : (p.numbered batches.length).Leased := { leased with }
  obtain ⟨moves, shows⟩ := exists_play_of_rounds leased uncalled rounds
  have after := ready.play client moves
  have held := after.held.nodup_iff.mpr after.nodup
  rw [shows.world] at held
  exact (ledger_of_rounds rounds).held.nodup_iff.mp held

/-- When a run has ended, the pool has the holders that it had before, and the tasks of the run are
among those that have ended. -/
theorem exists_play_of_runs (leased : p.Leased) (uncalled : p.Uncalled)
    (runs : SignerTask.Runs client (launchedOf client p.world batches mode options) q) :
    ∃ moves,
      let p' := (p.numbered batches.length).play client moves
      p'.world = q.1 ∧ p'.holders.Perm p.holders ∧ p'.ended.Perm (q.2 ++ p.ended) := by
  obtain ⟨moves, shows⟩ := exists_play_of_rounds leased uncalled runs.rounds
  obtain ⟨none, all⟩ := SignerTask.filterMap_asHolder?_of_ended (ended_of_runs runs)
  have holders := shows.holders
  have ended := shows.ended
  rw [none] at holders
  rw [all] at ended
  exact ⟨moves, shows.world, holders, ended⟩

end

/-- **The whole run.** There are moves that leave the pool the holders that it had and end the tasks
from which the run gathers its answer. -/
theorem exists_play_runAcross (client : Client σ κ) (leased : p.Leased) (uncalled : p.Uncalled)
    (batches : List (Batch κ)) (mode : Mode) (options : Options) :
    ∃ moves tasks,
      let p' := (p.numbered batches.length).play client moves
      p'.holders.Perm p.holders ∧ p'.ended.Perm (tasks ++ p.ended) ∧
        tasks.map (·.account) = batches.map (·.account) ∧
        runAcross client p.world batches mode options =
          match SignerTask.join p'.world [] none tasks with
          | (w, _, some e) => (.error e, w)
          | (w, results, none) => (.ok results, w) := by
  obtain ⟨moves, world, holders, ended⟩ :=
    exists_play_of_runs leased uncalled (runs_tasksOf client p.world batches mode options)
  refine ⟨moves, (tasksOf client p.world batches mode options).2, holders, ended,
    accounts_tasksOf client p.world batches mode options, ?_⟩
  rw [world]
  exact runAcross_eq client p.world batches mode options

end Pool

end ShellSale
