import ShellSale.Proofs.Batch.Gathering
import ShellSale.Proofs.Pool.Basic

/-!
## Several batches of one account

The results of the tasks are put under their accounts in the order of the batches, so where several
batches are of one account the entry is that of the last of them. Batches of one account that are
under way together do not get that far, as all but one of them are refused their tracker. But when
one of them ends before the next one starts, nothing is refused, and what the first one collected
is gone.

* `SignerTask.get?_join`: the entry of an account.
* `SignerTask.pairwise_launchAll`, `lastCollects_of_rounds`: as long as a wait takes time, of two
  batches of one account the earlier one collects nothing or the later one is refused.
* `Pool.ended_play`: whichever moves are made, the tasks that have ended have results.
* `Pool.gathers` is the main result: what is kept and what is lost, in every order of moves.
-/

namespace ShellSale

variable {σ κ : Type} {client : Client σ κ}

/-- The last list of several has the members of all of them just if the others are empty. -/
theorem perm_getLast?_flatMap_iff {α β : Type} (f : α → List β) (xs : List α) :
    ((xs.getLast?.map f).getD []).Perm (xs.flatMap f) ↔ ∀ x ∈ xs.dropLast, f x = [] := by
  rcases List.eq_nil_or_concat' xs with rfl | ⟨front, last, rfl⟩
  · simp
  · rw [List.getLast?_concat, List.dropLast_concat, List.flatMap_append, Option.map_some,
      Option.getD_some, List.flatMap_singleton, ← List.flatMap_eq_nil_iff]
    constructor
    · intro perm
      have length := perm.length_eq
      rw [List.length_append] at length
      exact List.eq_nil_of_length_eq_zero (by omega)
    · intro empty
      rw [empty, List.nil_append]

theorem Runner.outcomes_awaitNext (client : Client σ κ) (w : World σ κ) (r : Runner κ) :
    (r.awaitNext client w).outcomes = r.outcomes := by
  unfold awaitNext
  split <;> rfl

namespace SignerTask

/-- The outcomes that a task has collected when it has ended without a hard error. -/
def outcomes (t : SignerTask κ) : List Outcome :=
  match t.state with
  | .ended (.ok outcomes) => outcomes
  | _ => []

/-- Every task has ended without a hard error. -/
def AllFine (tasks : List (SignerTask κ)) : Prop :=
  ∀ t ∈ tasks, ∃ outcomes, t.state = .ended (.ok outcomes)

/-- No outcome is lost: the entry of every account has all that its tasks have collected. -/
def Keeps (results : AccountMap (List Outcome)) (tasks : List (SignerTask κ)) : Prop :=
  ∀ a, ((results.get? a).getD []).Perm ((tasks.filter (·.account = a)).flatMap outcomes)

/-- A task of an account with a later task has collected nothing. -/
def LastCollects (tasks : List (SignerTask κ)) : Prop :=
  tasks.Pairwise fun t t' => t.account = t'.account → t.outcomes = []

/-! ### The entry of an account -/

/-- **The entry of an account** is what the last of its tasks has collected. -/
theorem get?_join (w : World σ κ) (results : AccountMap (List Outcome))
    (first : Option PipelineError) {tasks : List (SignerTask κ)} (fine : AllFine tasks)
    (a : AccountId) :
    (join w results first tasks).2.1.get? a =
      ((tasks.filter (·.account = a)).getLast?.map outcomes).or (results.get? a) := by
  induction tasks generalizing results with
  | nil => rfl
  | cons t rest ih =>
    obtain ⟨⟨collected, state⟩, fine⟩ := List.forall_mem_cons.mp fine
    have mine : t.outcomes = collected := by rw [outcomes, state]
    rw [join, state]
    dsimp only
    rw [ih _ fine, AccountMap.get?_insert]
    -- what the task is put under its account for lasts only if no later task is of the account
    by_cases same : t.account = a
    · rw [if_pos same, List.filter_cons_of_pos (by simpa using same), List.getLast?_cons]
      cases (rest.filter (·.account = a)).getLast? with
      | none => simp [mine]
      | some later => rfl
    · rw [if_neg same, List.filter_cons_of_neg (by simpa using same)]

theorem mem_dropLast_cons {α : Type} {x y : α} {ys : List α} :
    x ∈ (y :: ys).dropLast ↔ ys ≠ [] ∧ (x = y ∨ x ∈ ys.dropLast) := by
  cases ys <;> simp

/-- All tasks of an account but its last one, when a task is put in front. -/
theorem mem_dropLast_filter_cons {s t : SignerTask κ} {rest : List (SignerTask κ)} {a : AccountId} :
    s ∈ ((t :: rest).filter (·.account = a)).dropLast ↔
      (s = t ∧ t.account = a ∧ ∃ t' ∈ rest, t'.account = a) ∨
        s ∈ (rest.filter (·.account = a)).dropLast := by
  by_cases mine : t.account = a
  · have some_iff : rest.filter (·.account = a) ≠ [] ↔ ∃ t' ∈ rest, t'.account = a := by
      simp [List.filter_eq_nil_iff]
    rw [List.filter_cons_of_pos (by simpa using mine), mem_dropLast_cons, some_iff]
    constructor
    · rintro ⟨some, rfl | mem⟩
      · exact Or.inl ⟨rfl, mine, some⟩
      · exact Or.inr mem
    · rintro (⟨rfl, -, some⟩ | mem)
      · exact ⟨some, Or.inl rfl⟩
      · exact ⟨some_iff.mp (List.ne_nil_of_mem (List.dropLast_subset _ mem)), Or.inr mem⟩
  · rw [List.filter_cons_of_neg (by simpa using mine)]
    simp [mine]

/-- Tasks with a later one of their account are all but the last one of their account. -/
theorem lastCollects_iff (tasks : List (SignerTask κ)) :
    LastCollects tasks ↔ ∀ a, ∀ t ∈ (tasks.filter (·.account = a)).dropLast, t.outcomes = [] := by
  induction tasks with
  | nil => simp [LastCollects]
  | cons t rest ih =>
    rw [LastCollects, List.pairwise_cons, ← LastCollects, ih]
    constructor
    · rintro ⟨first, later⟩ a s mem
      rcases mem_dropLast_filter_cons.mp mem with ⟨rfl, mine, t', listed, account⟩ | mem
      · exact first t' listed (mine.trans account.symm)
      · exact later a s mem
    · intro all
      refine ⟨?_, ?_⟩
      · intro t' listed same
        exact all t.account t
          (mem_dropLast_filter_cons.mpr (Or.inl ⟨rfl, rfl, t', listed, same.symm⟩))
      · intro a s mem
        exact all a s (mem_dropLast_filter_cons.mpr (Or.inr mem))

/-- What is gathered from tasks: for every account what the last of its tasks has collected. That is
everything just if the other tasks have collected nothing. -/
structure Gathered (results : AccountMap (List Outcome)) (tasks : List (SignerTask κ)) : Prop where
  entry : ∀ a, results.get? a = (tasks.filter (·.account = a)).getLast?.map outcomes
  keeps_iff : Keeps results tasks ↔ LastCollects tasks

theorem gathered_join (w : World σ κ) {tasks : List (SignerTask κ)} (fine : AllFine tasks) :
    Gathered (join w [] none tasks).2.1 tasks := by
  have entry : ∀ a, (join w [] none tasks).2.1.get? a =
      (tasks.filter (·.account = a)).getLast?.map outcomes := by
    intro a
    rw [get?_join w [] none fine, AccountMap.get?_nil, Option.or_none]
  refine { entry, keeps_iff := ?_ }
  rw [lastCollects_iff]
  refine forall_congr' fun a => ?_
  rw [entry]
  exact perm_getLast?_flatMap_iff ..

/-- Tasks that have ended are gathered without a hard error just if none of them had one. -/
theorem join_eq_none_iff_fine (w : World σ κ) {tasks : List (SignerTask κ)}
    (ended : ∀ t ∈ tasks, ∃ result, t.state = .ended result) :
    (join w [] none tasks).2.2 = none ↔ AllFine tasks := by
  rw [join_eq_none_iff]
  constructor
  · rintro ⟨-, none⟩ t mem
    obtain ⟨result, state⟩ := ended t mem
    cases result with
    | ok outcomes => exact ⟨outcomes, state⟩
    | error e => exact absurd state (none t mem e)
  · intro fine
    refine ⟨rfl, fun t mem e failed => ?_⟩
    obtain ⟨outcomes, state⟩ := fine t mem
    cases failed.symm.trans state

/-! ### Tasks that are started together -/

/-- A task of an account that is held is refused. -/
theorem spawn_of_held (mode : Mode) (options : Options) {w : World σ κ} (number : Nat)
    {b : Batch κ} (held : b.account ∈ w.registry.held) :
    (spawn client mode options w number b).2.state = .ended (.error (.alreadyOpen b.account)) := by
  refine spawn_induction
    (P := fun _ t => t.state = .ended (.error (.alreadyOpen b.account))) ?_ ?_
  · rw [launch, Tracker.open_of_mem client held]
  · intro w' t wake due _ refused
    rw [wake?, refused] at due
    cases due

/-- Tasks of an account that was held before they were started are refused. -/
theorem launchAll_of_held (mode : Mode) (options : Options) {w : World σ κ} (number : Nat)
    (batches : List (Batch κ)) {a : AccountId} (held : a ∈ w.registry.held) :
    ∀ t ∈ (launchAll client mode options w number batches).2, t.account = a →
      t.state = .ended (.error (.alreadyOpen a)) := by
  induction batches generalizing w number with
  | nil => simp [launchAll]
  | cons b rest ih =>
    obtain ⟨-, -, claimed, -⟩ := spawn_spec client mode options w number b
    intro t mem account
    rw [launchAll] at mem
    rcases List.mem_cons.mp mem with rfl | mem
    · rw [account_spawn] at account
      subst account
      exact spawn_of_held mode options number held
    · exact ih (number + 1) (claimed ▸ List.mem_append_right _ held) t mem account

theorem outcomes_start (client : Client σ κ) (w : World σ κ) (t : Tracker) (mode : Mode)
    (options : Options) (calls : List κ) :
    (Runner.start client w t mode options calls).2.outcomes = [] := by
  obtain ⟨new, issued⟩ := Runner.exists_issued client w
    { tracker := t, mode, options, total := calls.length, todo := calls } calls
  exact (Runner.outcomes_awaitNext ..).trans issued.outcomes

theorem outcomes_conclude (w : World σ κ) (account : AccountId) (number : Nat) {r : Runner κ}
    (none : r.outcomes = []) : (conclude w account number r).2.outcomes = [] := by
  unfold conclude
  split
  · rfl
  · exact none
  · rfl

/-- Before its first wait a task collects nothing. -/
theorem outcomes_launch (mode : Mode) (options : Options) (w : World σ κ) (number : Nat)
    (b : Batch κ) : (launch client mode options w number b).2.outcomes = [] := by
  unfold launch
  split
  · rfl
  · exact outcomes_conclude _ _ _ (outcomes_start ..)

/-- Of two tasks the earlier one has ended and has collected nothing, or the later one is refused,
if both are of one account. -/
def Excludes (t t' : SignerTask κ) : Prop :=
  t.account = t'.account →
    ((∃ result, t.state = .ended result) ∧ t.outcomes = []) ∨
      t'.state = .ended (.error (.alreadyOpen t.account))

/-- **Tasks that are started together**, with waits that take time: all but one of an account are
refused, or have ended at once. -/
theorem pairwise_launchAll (mode : Mode) {options : Options} (timed : 0 < options.timeout)
    (w : World σ κ) (number : Nat) (batches : List (Batch κ)) :
    (launchAll client mode options w number batches).2.Pairwise Excludes := by
  induction batches generalizing w number with
  | nil => exact List.Pairwise.nil
  | cons b rest ih =>
    rw [launchAll]
    refine List.pairwise_cons.mpr ⟨?_, ih _ _⟩
    intro t' mem same
    obtain ⟨-, -, claimed, own⟩ := spawn_spec client mode options w number b
    cases state : (spawn client mode options w number b).2.state with
    | ended result =>
      refine Or.inl ⟨⟨result, rfl⟩, ?_⟩
      rw [spawn, if_neg timed.ne']
      exact outcomes_launch ..
    | running r =>
      -- it waits with its tracker open, so the account is held when the later one comes
      have holder : (spawn client mode options w number b).2.holder? = some r.tracker.account := by
        rw [holder?, state]
      have held : b.account ∈ (spawn client mode options w number b).1.registry.held := by
        rw [claimed, holder, own _ holder]
        exact List.mem_append_left _ List.mem_cons_self
      rw [account_spawn] at same
      refine Or.inr ?_
      rw [account_spawn]
      exact launchAll_of_held mode options (number + 1) rest held t' mem same.symm

/-- A task that has ended is not touched while the others go through their rounds. -/
theorem getElem?_rounds_of_ended {p q : World σ κ × List (SignerTask κ)}
    (rounds : Rounds client p q) {i : Nat} {t : SignerTask κ}
    {result : Except PipelineError (List Outcome)} (found : p.2[i]? = some t)
    (ended : t.state = .ended result) : q.2[i]? = some t := by
  refine rounds.keep (P := fun _ tasks => tasks[i]? = some t) ?_ found
  rintro w tasks w' tasks' ⟨next, found', due⟩ found
  rename_i wake k t'
  -- it is not the task that is resumed, as that one waits
  have other : k ≠ i := by
    rintro rfl
    obtain rfl := Option.some.inj (found.symm.trans found')
    rw [wake?, ended] at due
    cases due
  rw [List.getElem?_set_ne other]
  exact found

end SignerTask

/-- A run of batches answers what is gathered from its tasks if no task had a hard error. -/
theorem runAcross_eq_ok_iff (client : Client σ κ) (w : World σ κ) (batches : List (Batch κ))
    (mode : Mode) (options : Options) (results : AccountMap (List Outcome)) :
    (runAcross client w batches mode options).1 = .ok results ↔
      (SignerTask.join (tasksOf client w batches mode options).1 [] none
        (tasksOf client w batches mode options).2).2.2 = none ∧
      (SignerTask.join (tasksOf client w batches mode options).1 [] none
        (tasksOf client w batches mode options).2).2.1 = results := by
  rw [runAcross_eq]
  split
  · rename_i joined
    simp [joined]
  · rename_i joined
    simp [joined]

/-- **Batches with waits that take time**: if no task has a hard error, only the last batch of an
account collects anything. -/
theorem lastCollects_of_rounds {w : World σ κ} {batches : List (Batch κ)} {mode : Mode}
    {options : Options} {q : World σ κ × List (SignerTask κ)} (timed : 0 < options.timeout)
    (rounds : SignerTask.Rounds client (launchedOf client w batches mode options) q)
    (fine : SignerTask.AllFine q.2) : SignerTask.LastCollects q.2 := by
  let launched := launchedOf client w batches mode options
  have accounts : q.2.map (·.account) = launched.2.map (·.account) :=
    SignerTask.accounts_rounds rounds
  have excludes : launched.2.Pairwise SignerTask.Excludes :=
    SignerTask.pairwise_launchAll mode timed _ _ batches
  rw [SignerTask.LastCollects, List.pairwise_iff_getElem]
  intro i j before later lt same
  obtain ⟨t, found, account⟩ :=
    exists_getElem?_of_map_eq accounts (List.getElem?_eq_getElem before)
  obtain ⟨t', found', account'⟩ :=
    exists_getElem?_of_map_eq accounts (List.getElem?_eq_getElem later)
  obtain ⟨bound, at_⟩ := List.getElem?_eq_some_iff.mp found
  obtain ⟨bound', at_'⟩ := List.getElem?_eq_some_iff.mp found'
  have apart := List.pairwise_iff_getElem.mp excludes i j bound bound' lt
  rw [at_, at_'] at apart
  rcases apart (account.symm.trans (same.trans account')) with ⟨⟨result, ended⟩, none⟩ | refused
  · have stays := SignerTask.getElem?_rounds_of_ended rounds found ended
    obtain rfl := Option.some.inj ((List.getElem?_eq_getElem before).symm.trans stays)
    exact none
  · have stays := SignerTask.getElem?_rounds_of_ended rounds found' refused
    obtain ⟨outcomes, state⟩ := fine t' (List.mem_of_getElem? stays)
    cases state.symm.trans refused

/-! ### Every order of moves -/

namespace Holder

theorem ended_ofTask {p : World σ κ × SignerTask κ} {t : SignerTask κ}
    (ended : (ofTask p).ended? = some t) : ∃ result, t.state = .ended result := by
  unfold ofTask at ended
  split at ended
  · cases ended
  · rename_i result state
    obtain rfl := Option.some.inj ended
    exact ⟨result, state⟩

theorem ended_answer {w : World σ κ} {a : AccountId} {job : Option (Job κ)} {t : SignerTask κ}
    (ended : (answer client w a job).ended? = some t) : ∃ result, t.state = .ended result := by
  unfold answer at ended
  split at ended
  · obtain ⟨j, -, rfl⟩ := Option.map_eq_some_iff.mp ended
    exact ⟨_, rfl⟩
  · cases job with
    | none => cases ended
    | some j => exact ended_ofTask ended

/-- A task that some work ends has a result. -/
theorem ended_work {w : World σ κ} {h : Holder κ} {x : Work κ} {t : SignerTask κ}
    (ended : (h.work client w x).ended? = some t) : ∃ result, t.state = .ended result := by
  unfold work at ended
  split at ended
  · exact ended_answer ended
  · split at ended <;> cases ended
  · cases ended
  · cases ended
  · cases ended
  · split at ended
    · exact ended_ofTask ended
    · cases ended
  · cases ended
  · cases ended

end Holder

namespace Pool

theorem ended_step {p : Pool σ κ} (h : ∀ t ∈ p.ended, ∃ result, t.state = .ended result)
    (m : Move σ κ) : ∀ t ∈ (p.step client m).ended, ∃ result, t.state = .ended result := by
  cases m with
  | claim a job =>
    rw [step, claim]
    split
    · exact h
    · intro t mem
      rcases List.mem_append.mp mem with refused | mem
      · obtain ⟨j, -, rfl⟩ := Option.map_eq_some_iff.mp (Option.mem_toList.mp refused)
        exact ⟨_, rfl⟩
      · exact h t mem
  | work a x =>
    rw [step, work]
    split
    · exact h
    · intro t mem
      rcases List.mem_append.mp mem with ended | mem
      · exact Holder.ended_work (Option.mem_toList.mp ended)
      · exact h t mem
  | await a index level timeout =>
    rw [step, await]
    split
    · exact h
    · dsimp only
      split
      · exact h
      · exact h
  | pass ms => exact h
  | outside node aborts => exact h

/-- The tasks that have ended have results, whichever moves were made. -/
theorem ended_play (client : Client σ κ) (node : σ) (moves : List (Move σ κ)) :
    ∀ t ∈ ((start node).play client moves).ended, ∃ result, t.state = .ended result := by
  suffices kept : ∀ p : Pool σ κ, (∀ t ∈ p.ended, ∃ result, t.state = .ended result) →
      ∀ t ∈ (p.play client moves).ended, ∃ result, t.state = .ended result from
    kept (start node) (by simp [start])
  induction moves with
  | nil => exact fun p h => h
  | cons m rest ih => exact fun p h => ih (p.step client m) (ended_step h m)

/-- **What a run of batches gathers.** Take tasks that have ended in any order of moves, listed in
the order of their batches, or those that `runAcross` has taken to their ends. They are gathered
without an error just if none of them had a hard error. Then the entry of an account is what the
last of its batches has collected. That is all there is just if no batch with a later one of its
account has collected anything, and what such a batch has collected is lost. `runAcross` loses
nothing as long as waits take time. -/
theorem gathers (client : Client σ κ) :
    (∀ (node : σ) (moves : List (Move σ κ)) (tasks : List (SignerTask κ)),
      let p := (start node).play client moves
      (∀ t ∈ tasks, t ∈ p.ended) →
        ((SignerTask.join p.world [] none tasks).2.2 = none ↔ SignerTask.AllFine tasks) ∧
        ((SignerTask.join p.world [] none tasks).2.2 = none →
          SignerTask.Gathered (SignerTask.join p.world [] none tasks).2.1 tasks)) ∧
    ∀ (w : World σ κ) (batches : List (Batch κ)) (mode : Mode) (options : Options),
      let tasks := (tasksOf client w batches mode options).2
      let answer := (runAcross client w batches mode options).1
      tasks.map (·.account) = batches.map (·.account) ∧
        ((∃ results, answer = .ok results) ↔ SignerTask.AllFine tasks) ∧
        ∀ results, answer = .ok results → SignerTask.Gathered results tasks ∧
          (0 < options.timeout → SignerTask.Keeps results tasks) := by
  refine ⟨?_, ?_⟩
  · intro node moves tasks p ended
    have fine_iff := SignerTask.join_eq_none_iff_fine p.world
      fun t mem => ended_play client node moves t (ended t mem)
    exact ⟨fine_iff, fun ok => SignerTask.gathered_join p.world (fine_iff.mp ok)⟩
  · intro w batches mode options tasks answer
    have runs := runs_tasksOf client w batches mode options
    have fine_iff := SignerTask.join_eq_none_iff_fine (tasksOf client w batches mode options).1
      (tasksOf_ended client w batches mode options)
    have ok_iff (results : AccountMap (List Outcome)) := runAcross_eq_ok_iff client w batches mode
      options results
    refine ⟨accounts_tasksOf client w batches mode options, ?_, ?_⟩
    · rw [← fine_iff]
      simp only [answer, ok_iff]
      exact ⟨fun ⟨_, fine, _⟩ => fine, fun fine => ⟨_, fine, rfl⟩⟩
    · intro results ok
      obtain ⟨none, rfl⟩ := (ok_iff results).mp ok
      have fine := fine_iff.mp none
      have gathered := SignerTask.gathered_join (tasksOf client w batches mode options).1 fine
      refine ⟨gathered, fun timed => ?_⟩
      exact gathered.keeps_iff.mpr (lastCollects_of_rounds timed runs.rounds fine)

/-- Two batches of one account, each of one call, of which the first one ends before the second one
starts: because its wait may take no time, or because of the order of moves. Either way no task has
a hard error, and the outcome of the first call is lost. -/
theorem gathers_overwritten :
    let node : Client Unit Nat :=
      { nonce := fun _ _ _ => (.ok 0, ())
        handOver := fun _ now _ _ delay =>
          ({ feed := [(now + delay, .event (.finalized (.ofNat delay) []))] }, ())
        errors := fun _ _ => none }
    let a : AccountId := .ofNat 1
    let w : World Unit Nat := { node := () }
    let hasty : Options := { timeout := 0 }
    let moves : List (Move Unit Nat) :=
      [.claim a (some ⟨1, .pipelined, {}, [10]⟩), .work a .answer, .pass 10, .work a .resume,
        .claim a (some ⟨2, .pipelined, {}, [20]⟩), .work a .answer, .pass 20, .work a .resume]
    ((runAcross node w [⟨a, [10]⟩, ⟨a, [20]⟩] .pipelined hasty).1 = .ok [(a, [.timedOut])] ∧
        (tasksOf node w [⟨a, [10]⟩, ⟨a, [20]⟩] .pipelined hasty).2.map (·.outcomes) =
          [[.timedOut], [.timedOut]] ∧
        ¬SignerTask.Keeps [(a, [.timedOut])]
          (tasksOf node w [⟨a, [10]⟩, ⟨a, [20]⟩] .pipelined hasty).2) ∧
      (SignerTask.join ((start ()).play node moves).world [] none
          ((start ()).play node moves).ended.reverse).2 =
        ([(a, [.accepted (.ofNat 20)])], none) ∧
      ((start ()).play node moves).ended.reverse.map (·.outcomes) =
        [[.accepted (.ofNat 10)], [.accepted (.ofNat 20)]] ∧
      ¬SignerTask.Keeps [(a, [.accepted (.ofNat 20)])]
        ((start ()).play node moves).ended.reverse := by
  intro node a w hasty moves
  obtain ⟨inOrder, across⟩ := gathers node
  -- the tasks do not overlap, so the second claim is granted
  have ok : (runAcross node w [⟨a, [10]⟩, ⟨a, [20]⟩] .pipelined hasty).1 =
      .ok [(a, [.timedOut])] := by
    rw [runAcross_eq_ok_iff]
    decide +kernel
  have joined : (SignerTask.join ((start ()).play node moves).world [] none
      ((start ()).play node moves).ended.reverse).2 = ([(a, [.accepted (.ofNat 20)])], none) := by
    decide +kernel
  have gathered := ((across w [⟨a, [10]⟩, ⟨a, [20]⟩] .pipelined hasty).2.2 _ ok).1
  obtain ⟨-, gathers⟩ := inOrder () moves ((start ()).play node moves).ended.reverse
    fun t mem => List.mem_reverse.mp mem
  rw [joined] at gathers
  refine ⟨⟨ok, by decide +kernel, ?_⟩, joined, by decide +kernel, ?_⟩
  · rw [gathered.keeps_iff, SignerTask.LastCollects]
    decide +kernel
  · rw [(gathers rfl).keeps_iff, SignerTask.LastCollects]
    decide +kernel

end Pool

end ShellSale
