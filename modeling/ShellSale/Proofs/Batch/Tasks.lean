import Mathlib.Data.List.Perm.Basic
import ShellSale.Batch.Across
import ShellSale.Proofs.Batch.Running

/-!
## Tasks and the registry

Every task of a set of batches holds at most one account, that of its tracker. The registry is the
ledger of these accounts: a step of a task leaves it alone or takes just the task's own account out.

* `SignerTask.Step` is all that a step of a task does to the world and to what it holds.
* `SignerTask.spawn_induction`: what steps keep holds of a task that is spawned.
* `SignerTask.Rounds` are the states that a set of tasks goes through, whichever of several tasks
  goes on first whose waits end at the same moment. What a round keeps, they keep (`Rounds.keep`).
  Driving tasks is one such order (`runs_drive`).
* `SignerTask.Ledger.ended`: tasks have ended when none of them waits any more.
* `SignerTask.join_eq_none_iff`: tasks give outcomes unless one of them had a hard error.
* `held_runAcross`: a run of batches leaves the registry as it was.
* `growsTo_tasksOf`: a run of batches adds no line to the log.
-/

namespace ShellSale

variable {σ κ : Type}

/-- What is filtered out of a list, with that of one member in front. -/
theorem perm_filterMap_middle {α β : Type} (f : α → Option β) (x : α) (front back : List α) :
    ((front ++ x :: back).filterMap f).Perm ((f x).toList ++ (front ++ back).filterMap f) := by
  refine (List.perm_middle.filterMap f).trans ?_
  rw [List.filterMap_cons]
  cases f x <;> exact .refl _

theorem perm_filterMap_insert {α β : Type} (f : α → Option β) (x : α) {front back : List α}
    {ys others : List β} (rest : ys.Perm ((front ++ back).filterMap f ++ others)) :
    ((f x).toList ++ ys).Perm ((front ++ x :: back).filterMap f ++ others) := by
  refine (rest.append_left _).trans ?_
  rw [← List.append_assoc]
  exact (perm_filterMap_middle f x front back).symm.append_right others

namespace SignerTask

/-- The account whose tracker a task holds open. -/
def holder? (t : SignerTask κ) : Option AccountId :=
  match t.state with
  | .running r => some r.tracker.account
  | .ended _ => none

/-- A task that has not ended waits for a call. -/
def Waits (t : SignerTask κ) : Prop :=
  ∀ r, t.state = .running r → ∃ nonce outcome wake, r.stage = .waiting nonce outcome wake

theorem Waits.ended_of_wake? {t : SignerTask κ} (h : t.Waits) (wake : t.wake? = none) :
    ∃ result, t.state = .ended result := by
  cases state : t.state with
  | ended result => exact ⟨result, rfl⟩
  | running r =>
    obtain ⟨nonce, outcome, at_, stage⟩ := h r state
    rw [wake?, state] at wake
    simp only [stage] at wake
    cases wake

theorem exists_waiting_of_wake? {t : SignerTask κ} {wake : Nat} (h : t.wake? = some wake) :
    ∃ r nonce outcome, t.state = .running r ∧ r.stage = .waiting nonce outcome wake := by
  unfold wake? at h
  split at h
  · rename_i r state
    split at h
    · rename_i nonce outcome at_ stage
      obtain rfl := Option.some.inj h
      exact ⟨r, nonce, outcome, state, stage⟩
    · cases h
  · cases h

/-! ### Steps of a task -/

/-- A step of a task that holds the account `a`: it goes on to a wait, or it ends and gives just
that account back. -/
structure Step (a : AccountId) (w w' : World σ κ) (t' : SignerTask κ) : Prop where
  waits : t'.Waits
  grows : World.GrowsTo (Entry.IsBy a) w w'
  ledger : (t'.holder? = some a ∧ w'.registry = w.registry) ∨
    (t'.holder? = none ∧ w'.registry = w.registry.release a)

theorem step_conclude (w : World σ κ) (account : AccountId) (number : Nat) (r : Runner κ) :
    Step r.tracker.account w (conclude w account number r).1 (conclude w account number r).2 := by
  unfold conclude
  split
  · rename_i nonce outcome wake stage
    refine { waits := ?_, grows := .refl _ w, ledger := Or.inl ⟨rfl, rfl⟩ }
    intro r' running
    cases running
    exact ⟨nonce, outcome, wake, stage⟩
  · refine { waits := ?_, grows := ?_, ledger := Or.inr ⟨rfl, rfl⟩ }
    · intro r' running
      cases running
    · have done := World.growsTo_notify (P := Entry.IsBy r.tracker.account) w
        (.batchDone r.tracker.account (r.outcomes.countP (·.isAccepted)) r.outcomes.length) trivial
      exact done.trans (.trans (World.growsTo_notify _ _ trivial) (.of_eq rfl rfl))
  · refine { waits := ?_, grows := .of_eq rfl rfl, ledger := Or.inr ⟨rfl, rfl⟩ }
    intro r' running
    cases running

/-- A step of a task after work that leaves the registry alone. -/
theorem Step.after {a : AccountId} {w w' w'' : World σ κ} {t : SignerTask κ} (h : Step a w' w'' t)
    (registry : w'.registry = w.registry) (grows : World.GrowsTo (Entry.IsBy a) w w') :
    Step a w w'' t where
  waits := h.waits
  grows := grows.trans h.grows
  ledger := by rw [← registry]; exact h.ledger

theorem step_resume (client : Client σ κ) (w : World σ κ) {t : SignerTask κ} {wake : Nat}
    (h : t.wake? = some wake) :
    ∃ a, t.holder? = some a ∧ Step a w (t.resume client w).1 (t.resume client w).2 := by
  obtain ⟨r, nonce, outcome, state, stage⟩ := exists_waiting_of_wake? h
  refine ⟨r.tracker.account, by rw [holder?, state], ?_⟩
  have acts := Runner.acts_collect client w r nonce outcome
  rw [resume, state]
  simp only [stage]
  have step := step_conclude (r.collect client w nonce outcome).1 t.account t.number
    (r.collect client w nonce outcome).2
  rw [acts.account] at step
  exact step.after acts.registry acts.grows

/-- A task that is resumed holds no account that it did not hold before. -/
theorem holder?_resume (client : Client σ κ) (w : World σ κ) {t : SignerTask κ} {wake : Nat}
    (due : t.wake? = some wake) {a : AccountId} (holds : (t.resume client w).2.holder? = some a) :
    t.holder? = some a := by
  obtain ⟨a', holder, step⟩ := step_resume client w due
  rcases step.ledger with ⟨stays, -⟩ | ⟨ends, -⟩
  · rw [holder, ← stays, holds]
  · cases holds.symm.trans ends

/-- A task that is launched opens a tracker and goes on to its first wait. If it does not, it leaves
the registry as it was. -/
theorem launch_spec (client : Client σ κ) (mode : Mode) (options : Options) (w : World σ κ)
    (number : Nat) (b : Batch κ) :
    (launch client mode options w number b).2.Waits ∧
      World.GrowsTo (Entry.IsBy b.account) w (launch client mode options w number b).1 ∧
      (launch client mode options w number b).1.registry.held =
        (launch client mode options w number b).2.holder?.toList ++ w.registry.held := by
  have opened := Tracker.growsTo_open client w b.account
  unfold launch
  cases result : Tracker.open_ client w b.account with
  | mk answer w' =>
    rw [result] at opened
    cases answer with
    | error e =>
      refine ⟨?_, opened, ?_⟩
      · intro r running
        cases running
      · exact congrArg Registry.held (Tracker.registry_of_open_error result)
    | ok t =>
      obtain ⟨-, claimed, account, -, -⟩ := Tracker.open_eq_ok result
      obtain ⟨account', registry, grows⟩ := Runner.acts_start client w' t mode options b.calls
      have step := step_conclude (Runner.start client w' t mode options b.calls).1 b.account number
        (Runner.start client w' t mode options b.calls).2
      rw [account'.trans account] at step
      rw [account] at grows
      refine ⟨step.waits, opened.trans (grows.trans step.grows), ?_⟩
      -- a task that has ended at once has released its account again
      rcases step.ledger with ⟨holder, same⟩ | ⟨holder, released⟩
      · rw [same, registry, claimed, holder]
        rfl
      · rw [released, registry, holder, Registry.release, claimed, List.erase_cons_head]
        rfl

/-! ### Spawning -/

theorem pursue_of_none {client : Client σ κ} {w : World σ κ} {t : SignerTask κ}
    (h : t.wake? = none) : t.pursue client w = (w, t) := by
  rw [pursue]
  split
  · rfl
  · rename_i wake some
    rw [h] at some
    cases some

theorem pursue_of_some {client : Client σ κ} {w : World σ κ} {t : SignerTask κ} {wake : Nat}
    (h : t.wake? = some wake) :
    t.pursue client w =
      if wake ≤ w.now then (t.resume client w).2.pursue client (t.resume client w).1
      else (w, t) := by
  rw [pursue]
  split
  · rename_i none
    rw [h] at none
    cases none
  · rename_i wake' some
    obtain rfl := Option.some.inj (h.symm.trans some)
    rfl

/-- What resuming a task keeps, pursuing it keeps. -/
theorem pursue_induction {client : Client σ κ} {P : World σ κ → SignerTask κ → Prop}
    (resumed : ∀ w t wake, t.wake? = some wake → wake ≤ w.now → P w t →
      P (t.resume client w).1 (t.resume client w).2)
    {w : World σ κ} {t : SignerTask κ} (h : P w t) :
    P (t.pursue client w).1 (t.pursue client w).2 := by
  induction w, t using pursue.induct client with
  | case1 w t asleep =>
    rw [pursue_of_none asleep]
    exact h
  | case2 w t wake some due p ih =>
    rw [pursue_of_some some, if_pos due]
    exact ih (resumed w t wake some due h)
  | case3 w t wake some later =>
    rw [pursue_of_some some, if_neg later]
    exact h

/-- What holds of a task that is launched and what resuming it keeps, spawning it gives. -/
theorem spawn_induction {client : Client σ κ} {P : World σ κ → SignerTask κ → Prop} {mode : Mode}
    {options : Options} {w : World σ κ} {number : Nat} {b : Batch κ}
    (launched : P (launch client mode options w number b).1
      (launch client mode options w number b).2)
    (resumed : ∀ w t wake, t.wake? = some wake → wake ≤ w.now → P w t →
      P (t.resume client w).1 (t.resume client w).2) :
    P (spawn client mode options w number b).1 (spawn client mode options w number b).2 := by
  rw [spawn]
  split
  · exact pursue_induction resumed launched
  · exact launched

/-- A task that is launched holds no account but its own. -/
theorem holder?_launch (client : Client σ κ) (mode : Mode) (options : Options) (w : World σ κ)
    (number : Nat) (b : Batch κ) {a : AccountId}
    (holds : (launch client mode options w number b).2.holder? = some a) : a = b.account := by
  unfold launch at holds
  cases result : Tracker.open_ client w b.account with
  | mk answer w' =>
    rw [result] at holds
    cases answer with
    | error e => cases holds
    | ok t =>
      obtain ⟨-, -, account, -, -⟩ := Tracker.open_eq_ok result
      have started := (Runner.acts_start client w' t mode options b.calls).1
      have step := step_conclude (Runner.start client w' t mode options b.calls).1 b.account number
        (Runner.start client w' t mode options b.calls).2
      rw [started.trans account] at step
      rcases step.ledger with ⟨holder, -⟩ | ⟨holder, -⟩
      · exact Option.some.inj (holds.symm.trans holder)
      · cases holds.symm.trans holder

/-- A task that is spawned goes on to a wait or to its end. In the end it leaves the registry as it
was. -/
theorem spawn_spec (client : Client σ κ) (mode : Mode) (options : Options) (w : World σ κ)
    (number : Nat) (b : Batch κ) :
    (spawn client mode options w number b).2.Waits ∧
      World.GrowsTo (Entry.IsBy b.account) w (spawn client mode options w number b).1 ∧
      (spawn client mode options w number b).1.registry.held =
        (spawn client mode options w number b).2.holder?.toList ++ w.registry.held ∧
      ∀ a, (spawn client mode options w number b).2.holder? = some a → a = b.account := by
  let P (w' : World σ κ) (t : SignerTask κ) : Prop :=
    t.Waits ∧ World.GrowsTo (Entry.IsBy b.account) w w' ∧
      w'.registry.held = t.holder?.toList ++ w.registry.held ∧
      ∀ a, t.holder? = some a → a = b.account
  refine spawn_induction (P := P) ?_ ?_
  · obtain ⟨waits, grows, held⟩ := launch_spec client mode options w number b
    exact ⟨waits, grows, held, fun a => holder?_launch client mode options w number b⟩
  · rintro w' t wake due - ⟨-, grows, held, own⟩
    obtain ⟨a, holder, step⟩ := step_resume client w' due
    obtain rfl := own a holder
    rw [holder] at held
    refine ⟨step.waits, grows.trans step.grows, ?_, fun a' holds =>
      own a' (holder?_resume client w' due holds)⟩
    rcases step.ledger with ⟨stays, same⟩ | ⟨ends, released⟩
    · rw [stays, same, held]
    · rw [ends, released, Registry.release, held]
      exact List.erase_cons_head ..

/-! ### Sets of tasks -/

/-- The accounts that tasks hold. -/
def holders (tasks : List (SignerTask κ)) : List AccountId :=
  tasks.filterMap holder?

theorem holders_cons (t : SignerTask κ) (tasks : List (SignerTask κ)) :
    holders (t :: tasks) = t.holder?.toList ++ holders tasks := by
  rw [holders, holders, List.filterMap_cons]
  cases t.holder? <;> rfl

/-- A step takes the task's account out of the ledger exactly if the task does not hold it on. -/
theorem Step.perm {a : AccountId} {w w' : World σ κ} {t' : SignerTask κ} (h : Step a w w' t')
    {others : List AccountId} (held : w.registry.held.Perm (a :: others)) :
    w'.registry.held.Perm (t'.holder?.toList ++ others) := by
  rcases h.ledger with ⟨holder, same⟩ | ⟨holder, released⟩
  · rw [same, holder]
    exact held
  · rw [released, holder]
    have erased := held.erase a
    rw [List.erase_cons_head] at erased
    exact erased

/-- The ledger of a set of tasks: the registry holds their accounts and those of others. -/
structure Ledger (w : World σ κ) (tasks : List (SignerTask κ)) (others : List AccountId) :
    Prop where
  waits : ∀ t ∈ tasks, t.Waits
  held : w.registry.held.Perm (holders tasks ++ others)

theorem ledger_launchAll (client : Client σ κ) (mode : Mode) (options : Options) (w : World σ κ)
    (number : Nat) (batches : List (Batch κ)) :
    Ledger (launchAll client mode options w number batches).1
      (launchAll client mode options w number batches).2 w.registry.held := by
  induction batches generalizing w number with
  | nil => exact { waits := by simp [launchAll], held := .refl _ }
  | cons b rest ih =>
    obtain ⟨waits, -, claimed, -⟩ := spawn_spec client mode options w number b
    have later := ih (spawn client mode options w number b).1 (number + 1)
    refine { waits := ?_, held := ?_ }
    · intro t mem
      rcases List.mem_cons.mp mem with rfl | mem
      · exact waits
      · exact later.waits t mem
    · have held := later.held
      rw [claimed, ← List.append_assoc] at held
      rw [launchAll, holders_cons]
      exact held.trans (List.perm_append_comm.append_right _)

/-- A task stands between others, and what comes of it stands in its place. -/
theorem exists_split {tasks : List (SignerTask κ)} {k : Nat} {t : SignerTask κ}
    (found : tasks[k]? = some t) :
    ∃ front back, tasks = front ++ t :: back ∧ ∀ t', tasks.set k t' = front ++ t' :: back := by
  obtain ⟨bound, rfl⟩ := List.getElem?_eq_some_iff.mp found
  refine ⟨tasks.take k, tasks.drop (k + 1), ?_, fun t' => List.set_eq_take_cons_drop t' bound⟩
  rw [List.getElem_cons_drop, List.take_append_drop]

theorem Ledger.resume {client : Client σ κ} {w : World σ κ} {tasks : List (SignerTask κ)}
    {others : List AccountId} (h : Ledger w tasks others) {k wake : Nat} {t : SignerTask κ}
    (found : tasks[k]? = some t) (due : t.wake? = some wake) :
    Ledger (t.resume client w).1 (tasks.set k (t.resume client w).2) others := by
  obtain ⟨a, holder, step⟩ := step_resume client w due
  obtain ⟨front, back, rfl, set⟩ := exists_split found
  refine { waits := ?_, held := ?_ }
  · intro t' mem
    rcases List.mem_or_eq_of_mem_set mem with kept | rfl
    · exact h.waits t' kept
    · exact step.waits
  · -- the account stands in front of those of all others
    have held : w.registry.held.Perm (a :: (holders (front ++ back) ++ others)) := by
      have mine := h.held.trans
        ((perm_filterMap_middle holder? t front back).append_right others)
      rwa [holder] at mine
    rw [set]
    exact (step.perm held).trans (perm_filterMap_insert holder? _ (.refl _))

theorem drive_of_none {client : Client σ κ} {w : World σ κ} {tasks : List (SignerTask κ)}
    (h : nextWake tasks = none) : drive client w tasks = (w, tasks) := by
  rw [drive]
  split
  · rfl
  · rename_i wake some
    rw [h] at some
    cases some

theorem drive_of_some {client : Client σ κ} {w : World σ κ} {tasks : List (SignerTask κ)}
    {wake : Nat} (h : nextWake tasks = some wake) :
    drive client w tasks =
      drive client (resumeFirst client wake { w with now := max w.now wake } tasks).1
        (resumeFirst client wake { w with now := max w.now wake } tasks).2 := by
  rw [drive]
  split
  · rename_i none
    rw [h] at none
    cases none
  · rename_i wake' some
    obtain rfl := Option.some.inj (h.symm.trans some)
    rfl

/-- Resuming changes one task in its place. -/
theorem exists_resumeFirst (client : Client σ κ) {wake : Nat} (w : World σ κ)
    {tasks : List (SignerTask κ)} (h : wake ∈ tasks.filterMap wake?) :
    ∃ k t, tasks[k]? = some t ∧ t.wake? = some wake ∧
      resumeFirst client wake w tasks =
        ((t.resume client w).1, tasks.set k (t.resume client w).2) := by
  induction tasks with
  | nil => cases h
  | cons t rest ih =>
    unfold resumeFirst
    by_cases due : t.wake? = some wake
    · rw [if_pos due]
      exact ⟨0, t, rfl, due, rfl⟩
    · have later : wake ∈ rest.filterMap wake? := by
        rw [List.mem_filterMap] at h ⊢
        obtain ⟨t', mem, due'⟩ := h
        rcases List.mem_cons.mp mem with rfl | mem
        · exact absurd due' due
        · exact ⟨t', mem, due'⟩
      obtain ⟨k, t', found, due', resumed⟩ := ih later
      rw [if_neg due, resumed]
      exact ⟨k + 1, t', found, due', rfl⟩

/-- One round of a set of tasks: time passes to the end of the next wait, and a task whose wait ends
then is resumed. If there are several, it may be any of them. -/
inductive Round (client : Client σ κ) (w : World σ κ) (tasks : List (SignerTask κ)) :
    World σ κ → List (SignerTask κ) → Prop where
  | resume {wake k : Nat} {t : SignerTask κ} (next : nextWake tasks = some wake)
    (found : tasks[k]? = some t) (due : t.wake? = some wake) :
    Round client w tasks (t.resume client { w with now := max w.now wake }).1
      (tasks.set k (t.resume client { w with now := max w.now wake }).2)

/-- The rounds of a set of tasks. -/
abbrev Rounds (client : Client σ κ) :
    World σ κ × List (SignerTask κ) → World σ κ × List (SignerTask κ) → Prop :=
  Relation.ReflTransGen fun p q => Round client p.1 p.2 q.1 q.2

/-- Rounds until no task waits any more. -/
structure Runs (client : Client σ κ) (p q : World σ κ × List (SignerTask κ)) : Prop where
  rounds : Rounds client p q
  done : nextWake q.2 = none

/-- What a round keeps, rounds keep. -/
theorem Rounds.keep {client : Client σ κ} {P : World σ κ → List (SignerTask κ) → Prop}
    (round : ∀ {w tasks w' tasks'}, Round client w tasks w' tasks' → P w tasks → P w' tasks')
    {p q : World σ κ × List (SignerTask κ)} (rounds : Rounds client p q) (h : P p.1 p.2) :
    P q.1 q.2 := by
  induction rounds with
  | refl => exact h
  | tail _ last ih => exact round last ih

/-- Resuming the first of the tasks whose waits end next is a round. -/
theorem round_resumeFirst (client : Client σ κ) (w : World σ κ) {tasks : List (SignerTask κ)}
    {wake : Nat} (next : nextWake tasks = some wake) :
    Round client w tasks (resumeFirst client wake { w with now := max w.now wake } tasks).1
      (resumeFirst client wake { w with now := max w.now wake } tasks).2 := by
  obtain ⟨k, t, found, due, resumed⟩ :=
    exists_resumeFirst client { w with now := max w.now wake } (List.min?_mem next)
  rw [resumed]
  exact .resume next found due

/-- **Driving tasks** takes them from round to round until none of them waits. -/
theorem runs_drive (client : Client σ κ) (w : World σ κ) (tasks : List (SignerTask κ)) :
    Runs client (w, tasks) (drive client w tasks) := by
  induction w, tasks using drive.induct client with
  | case1 w tasks none =>
    rw [drive_of_none none]
    exact ⟨.refl, none⟩
  | case2 w tasks wake next p =>
    rename_i ih
    rw [drive_of_some next]
    exact ⟨.head (round_resumeFirst client w next) ih.rounds, ih.done⟩

theorem Ledger.round {client : Client σ κ} {w w' : World σ κ} {tasks tasks' : List (SignerTask κ)}
    {others : List AccountId} (round : Round client w tasks w' tasks') (h : Ledger w tasks others) :
    Ledger w' tasks' others := by
  cases round with
  | @resume wake k t next found due =>
    have later : Ledger { w with now := max w.now wake } tasks others := { h with }
    exact later.resume found due

/-- **Tasks of which none waits any more** have all ended. -/
theorem Ledger.ended {w : World σ κ} {tasks : List (SignerTask κ)} {others : List AccountId}
    (h : Ledger w tasks others) (done : nextWake tasks = none) :
    ∀ t ∈ tasks, ∃ result, t.state = .ended result := by
  intro t mem
  rw [nextWake, List.min?_eq_none_iff, List.filterMap_eq_nil_iff] at done
  exact (h.waits t mem).ended_of_wake? (done t mem)

theorem holders_eq_nil {tasks : List (SignerTask κ)}
    (h : ∀ t ∈ tasks, ∃ result, t.state = .ended result) : holders tasks = [] := by
  rw [holders, List.filterMap_eq_nil_iff]
  intro t mem
  obtain ⟨result, state⟩ := h t mem
  rw [holder?, state]

theorem registry_join (w : World σ κ) (results : AccountMap (List Outcome))
    (first : Option PipelineError) (tasks : List (SignerTask κ)) :
    (join w results first tasks).1.registry = w.registry := by
  induction tasks generalizing w results first with
  | nil => rfl
  | cons t rest ih =>
    unfold join
    split
    · exact ih ..
    · exact ih ..
    · exact ih ..

/-! ### What the log gets -/

theorem growsTo_launchAll (client : Client σ κ) (mode : Mode) (options : Options) (w : World σ κ)
    (number : Nat) (batches : List (Batch κ)) :
    World.GrowsTo Entry.IsSilent w (launchAll client mode options w number batches).1 := by
  induction batches generalizing w number with
  | nil => exact .refl _ w
  | cons b rest ih =>
    obtain ⟨-, grows, -⟩ := spawn_spec client mode options w number b
    exact (grows.mono fun _ => Entry.IsBy.isSilent).trans (ih _ _)

theorem growsTo_round {client : Client σ κ} {w w' : World σ κ} {tasks tasks' : List (SignerTask κ)}
    (round : Round client w tasks w' tasks') : World.GrowsTo Entry.IsSilent w w' := by
  cases round with
  | @resume wake k t next found due =>
    obtain ⟨a, -, step⟩ := step_resume client { w with now := max w.now wake } due
    exact (World.GrowsTo.later _ w _).trans (step.grows.mono fun _ => Entry.IsBy.isSilent)

theorem growsTo_rounds {client : Client σ κ} {p q : World σ κ × List (SignerTask κ)}
    (rounds : Rounds client p q) : World.GrowsTo Entry.IsSilent p.1 q.1 :=
  rounds.keep (P := fun w _ => World.GrowsTo Entry.IsSilent p.1 w)
    (fun round grown => grown.trans (growsTo_round round)) (.refl _ p.1)

theorem growsTo_join (w : World σ κ) (results : AccountMap (List Outcome))
    (first : Option PipelineError) (tasks : List (SignerTask κ)) :
    World.GrowsTo Entry.IsSilent w (join w results first tasks).1 := by
  induction tasks generalizing w results first with
  | nil => exact .refl _ w
  | cons t rest ih =>
    unfold join
    split
    · exact ih ..
    · exact (World.growsTo_notify (P := Entry.IsSilent) w _ rfl).trans (ih ..)
    · exact ih ..

/-- The tasks of batches give outcomes unless one of them had a hard error. -/
theorem join_eq_none_iff (w : World σ κ) (results : AccountMap (List Outcome))
    (first : Option PipelineError) (tasks : List (SignerTask κ)) :
    (join w results first tasks).2.2 = none ↔
      first = none ∧ ∀ t ∈ tasks, ∀ e, t.state ≠ .ended (.error e) := by
  induction tasks generalizing w results first with
  | nil => simp [join]
  | cons t rest ih =>
    rw [List.forall_mem_cons]
    unfold join
    split
    · rename_i outcomes state
      rw [ih, state]
      simp
    · rename_i e state
      rw [ih, state]
      simp
    · rename_i r state
      rw [ih, state]
      simp

end SignerTask

/-! ### Runs of batches -/

/-- The tasks of a run of batches when all have been launched. -/
def launchedOf (client : Client σ κ) (w : World σ κ) (batches : List (Batch κ)) (mode : Mode)
    (options : Options) : World σ κ × List (SignerTask κ) :=
  SignerTask.launchAll client mode options { w with tasks := w.tasks + batches.length }
    (w.tasks + 1) batches

/-- The tasks of a run of batches, launched and then driven to their ends. -/
def tasksOf (client : Client σ κ) (w : World σ κ) (batches : List (Batch κ))
    (mode : Mode) (options : Options) : World σ κ × List (SignerTask κ) :=
  let launched := SignerTask.launchAll client mode options
    { w with tasks := w.tasks + batches.length } (w.tasks + 1) batches
  SignerTask.drive client launched.1 launched.2

theorem runs_tasksOf (client : Client σ κ) (w : World σ κ) (batches : List (Batch κ))
    (mode : Mode) (options : Options) :
    SignerTask.Runs client (launchedOf client w batches mode options)
      (tasksOf client w batches mode options) :=
  SignerTask.runs_drive ..

theorem runAcross_eq (client : Client σ κ) (w : World σ κ) (batches : List (Batch κ))
    (mode : Mode) (options : Options) :
    runAcross client w batches mode options =
      match SignerTask.join (tasksOf client w batches mode options).1 [] none
        (tasksOf client w batches mode options).2 with
      | (w, _, some e) => (.error e, w)
      | (w, results, none) => (.ok results, w) := rfl

section

variable {client : Client σ κ} {w : World σ κ} {batches : List (Batch κ)} {mode : Mode}
  {options : Options} {q : World σ κ × List (SignerTask κ)}

/-- The ledger of the tasks of a run of batches, at any point of any order. -/
theorem ledger_of_rounds
    (rounds : SignerTask.Rounds client (launchedOf client w batches mode options) q) :
    SignerTask.Ledger q.1 q.2 w.registry.held :=
  rounds.keep SignerTask.Ledger.round (SignerTask.ledger_launchAll client mode options _ _ batches)

/-- All tasks of a run of batches have ended when the run has, whatever the order. -/
theorem ended_of_runs
    (runs : SignerTask.Runs client (launchedOf client w batches mode options) q) :
    ∀ t ∈ q.2, ∃ result, t.state = .ended result :=
  (ledger_of_rounds runs.rounds).ended runs.done

/-- A run of batches gives back every account that it claimed, whatever the order and whichever way
its tasks end. -/
theorem held_of_runs
    (runs : SignerTask.Runs client (launchedOf client w batches mode options) q) :
    q.1.registry.held.Perm w.registry.held := by
  have held := (ledger_of_rounds runs.rounds).held
  rwa [SignerTask.holders_eq_nil (ended_of_runs runs), List.nil_append] at held

end

theorem tasksOf_ended (client : Client σ κ) (w : World σ κ) (batches : List (Batch κ))
    (mode : Mode) (options : Options) :
    ∀ t ∈ (tasksOf client w batches mode options).2, ∃ result, t.state = .ended result :=
  ended_of_runs (runs_tasksOf client w batches mode options)

theorem held_runAcross (client : Client σ κ) (w : World σ κ) (batches : List (Batch κ))
    (mode : Mode) (options : Options) :
    (runAcross client w batches mode options).2.registry.held.Perm w.registry.held := by
  have held := held_of_runs (runs_tasksOf client w batches mode options)
  have joined := SignerTask.registry_join (tasksOf client w batches mode options).1 [] none
    (tasksOf client w batches mode options).2
  rw [runAcross_eq]
  split
  · rename_i gathered
    rw [gathered] at joined
    rwa [joined]
  · rename_i gathered
    rw [gathered] at joined
    rwa [joined]

/-- A run of batches adds no line to the log. -/
theorem growsTo_tasksOf (client : Client σ κ) (w : World σ κ) (batches : List (Batch κ))
    (mode : Mode) (options : Options) :
    World.GrowsTo Entry.IsSilent w (tasksOf client w batches mode options).1 := by
  have started : World.GrowsTo Entry.IsSilent w { w with tasks := w.tasks + batches.length } :=
    .of_eq rfl rfl
  exact (started.trans (SignerTask.growsTo_launchAll ..)).trans
    (SignerTask.growsTo_rounds (runs_tasksOf client w batches mode options).rounds)

end ShellSale
