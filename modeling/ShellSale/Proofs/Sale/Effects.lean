import ShellSale.Proofs.Batch.Single
import ShellSale.Proofs.Sale.Visits

/-!
## What steps do to the world

All that a step of a phase does is a `World.Course`. A step of the users that makes one call
succeeds whatever becomes of the call, and an administrative step succeeds if its call is accepted.

* `Visit.course_after`: any step, and `Phase.course_run`: all steps of a run.
* `Sale.users_single`, `Sale.admin_single`: steps of one call.
* `Phase.exists_run_users_single`, `Phase.exists_run_decree`: a phase goes on after them.
-/

namespace ShellSale

variable {σ : Type}

/-! ### Whole steps -/

namespace Sale

theorem course_lines (client : Client σ Call) (w : World σ Call) (lines : List LogLine) :
    World.Course client w (lines.foldl (fun w l => w.record (.line l)) w) := by
  induction lines generalizing w with
  | nil => exact .refl
  | cons l rest ih => exact .head (.line l) (ih _)

/-- Lines change nothing but the log. -/
theorem foldl_lines (w : World σ Call) (lines : List LogLine) :
    lines.foldl (fun w l => w.record (.line l)) w =
      { w with log := w.log ++ lines.map fun l => (w.now, .line l) } := by
  induction lines generalizing w with
  | nil => rw [List.map_nil, List.append_nil, List.foldl_nil]
  | cons l rest ih =>
    rw [List.foldl_cons, ih, List.map_cons, List.append_cons]
    rfl

theorem sent_lines (w : World σ Call) (lines : List LogLine) :
    (lines.foldl (fun w l => w.record (.line l)) w).sent = w.sent := by
  induction lines generalizing w with
  | nil => rfl
  | cons l rest ih => exact (ih _).trans (World.sent_line w l)

theorem course_admin (sale : Sale σ) (w : World σ Call) (step : String) (signer : AccountId)
    (mode : Mode) (calls : List Call) :
    World.Course sale.client w (sale.admin w step signer mode calls).2 := by
  let w₀ := say w .info ("🔧 " ++ step ++ "...")
  have said : World.Course sale.client w w₀ := .single (.line _)
  have opened := (Tracker.steps_open sale.client w₀ signer).course
  cases result : Tracker.open_ sale.client w₀ signer with
  | mk answer w₁ =>
    rw [result] at opened
    have begun : World.Course sale.client w w₁ := said.trans opened
    cases answer with
    | error e =>
      have refused : sale.admin w step signer mode calls = (.error (.error (.pipeline e)), w₁) := by
        simp only [admin, w₀, result]
      rw [refused]
      exact begun
    | ok t =>
      have ran := begun.trans (course_runBatch sale.client w₁ t mode (strict sale.options) calls)
      cases ended : runBatch sale.client w₁ t mode (strict sale.options) calls with
      | mk w' r =>
        have batch : sale.adminBatch w step signer mode calls = .ok (t, w', r) := by
          simp only [adminBatch, w₀, result, ended]
        rw [ended] at ran
        have closed := ran.trans (Tracker.steps_close sale.client w' r.tracker).course
        rw [admin_of_ok batch]
        split
        · exact ran.trans (Tracker.steps_release sale.client w' r.tracker).course
        · split
          · exact closed
          · exact closed.tail (.line _)

theorem course_users (sale : Sale σ) (w : World σ Call) (step : String) (mode : Mode)
    (calls : List (AccountName × Call)) :
    World.Course sale.client w (sale.users w step mode calls).2 := by
  have said : World.Course sale.client w (say w .info ("👥 " ++ step ++ " for " ++
      toString (batches sale.keyring calls).length ++ " accounts...")) := .single (.line _)
  have gathered := (said.trans (course_tasksOf sale.client _ (batches sale.keyring calls) mode
    sale.options)).trans (SignerTask.course_join sale.client _ [] none
      (sale.userTasks w step mode calls).2)
  rw [users_eq]
  rcases joined : SignerTask.join (sale.userTasks w step mode calls).1 [] none
    (sale.userTasks w step mode calls).2 with ⟨w₁, outcomes, _ | e⟩
  · rw [userTasks] at joined gathered
    rw [joined] at gathered
    exact gathered.trans (course_lines ..)
  · rw [userTasks] at joined gathered
    rw [joined] at gathered
    exact gathered

end Sale

/-- The calls of a step of the users are those of its tasks. -/
theorem Sale.sent_users (sale : Sale σ) (w : World σ Call) (step : String) (mode : Mode)
    (calls : List (AccountName × Call)) :
    (sale.users w step mode calls).2.sent = (sale.userTasks w step mode calls).1.sent := by
  have gathered := SignerTask.sent_join (sale.userTasks w step mode calls).1 [] none
    (sale.userTasks w step mode calls).2
  rw [users_eq]
  rcases joined : SignerTask.join (sale.userTasks w step mode calls).1 [] none
    (sale.userTasks w step mode calls).2 with ⟨w₁, outcomes, _ | e⟩
  · rw [joined] at gathered
    exact (sent_lines w₁ _).trans gathered
  · rw [joined] at gathered
    exact gathered

/-- All that a step does to the world. -/
theorem Visit.course_after (sale : Sale σ) (v : Visit σ) :
    World.Course sale.client v.world (v.after sale) := by
  obtain ⟨w, p⟩ := v
  cases p with
  | admin step signer mode calls next => exact sale.course_admin ..
  | users step calls next => exact sale.course_users ..
  | say text next => exact .single (.line _)
  | _ => exact .refl

namespace Phase

/-- All that a run of a phase does to the world. -/
theorem course_run (sale : Sale σ) (w : World σ Call) (p : Phase) :
    World.Course sale.client w (p.run sale w).2 := by
  induction w, p using run_induction sale with
  | step w p ih =>
    have first := Visit.course_after sale ⟨w, p⟩
    rw [run_eq]
    cases left : p.resume (Visit.reply sale ⟨w, p⟩) with
    | ok q => exact first.trans (ih q left)
    | error result => exact first

theorem run_admin (sale : Sale σ) (w : World σ Call) (step : String) (signer : AccountName)
    (mode : Mode) (calls : List Call) (next : Phase) :
    let q := sale.admin w step (sale.keyring.account signer) mode calls
    (admin step signer mode calls next).run sale w =
      match q.1 with
      | .ok () => next.run sale q.2
      | .error halt => (.error halt, q.2) := by
  rw [run]
  rcases sale.admin w step (sale.keyring.account signer) mode calls with ⟨_ | ⟨⟩, u⟩
  · rfl
  · rfl

theorem run_users (sale : Sale σ) (w : World σ Call) (step : String)
    (calls : List (AccountName × Call)) (next : Phase) :
    let q := sale.users w step .pipelined calls
    (users step calls next).run sale w =
      match q.1 with
      | .ok _ => next.run sale q.2
      | .error halt => (.error halt, q.2) := by
  rw [run]
  rcases sale.users w step .pipelined calls with ⟨_ | _, u⟩
  · rfl
  · rfl

end Phase

/-! ### Steps of a single call -/

namespace Sale

variable (sale : Sale σ) {w : World σ Call} {nonce : Nat} {node : σ}

/-- A step of the users without calls changes nothing but the log. -/
theorem users_nil (w : World σ Call) (step : String) :
    let u := sale.users w step .pipelined []
    (∃ outcomes, u.1 = .ok outcomes) ∧ u.2.registry = w.registry ∧ u.2.node = w.node ∧
      u.2.sent = w.sent := by
  intro u
  have sent : u.2.sent = _ := sale.sent_users w step .pipelined []
  have users : u = _ := users_eq ..
  rw [userTasks, tasksOf, SignerTask.drive_of_none rfl] at users sent
  simp only [foldl_lines] at users
  have said : u.2.sent = w.sent := sent.trans (World.sent_line w _)
  rw [users] at said ⊢
  exact ⟨⟨_, rfl⟩, rfl, rfl, said⟩

/-- **A step of the users that makes one call** succeeds, whatever becomes of the call. -/
theorem users_single (step : String) (name : AccountName) (call : Call)
    (free : sale.keyring.account name ∉ w.registry.held)
    (answer : sale.client.nonce w.node w.now (sale.keyring.account name) = (.ok nonce, node))
    (calm : w.aborted sale.options = false) (below : nonce < NonceCursor.last) :
    let u := sale.users w step .pipelined [(name, call)]
    (∃ outcomes, u.1 = .ok outcomes) ∧
      w.Took sale.client u.2 node ⟨sale.keyring.account name, nonce, call⟩ := by
  intro u
  let said := say w .info ("👥 " ++ step ++ " for " ++
    toString (batches sale.keyring [(name, call)]).length ++ " accounts...")
  have single : sale.userTasks w step .pipelined [(name, call)] = tasksOf sale.client said
    [⟨sale.keyring.account name, [call]⟩] .pipelined sale.options := rfl
  obtain ⟨⟨t, outcome, tasks, state⟩, took⟩ :=
    tasksOf_single (w := said) .pipelined call free answer calm below
  have sent : u.2.sent = _ := sale.sent_users w step .pipelined [(name, call)]
  rw [single, took.sent, show said.sent = w.sent from World.sent_line w _] at sent
  have users : u = _ := users_eq ..
  rw [single, tasks] at users
  simp only [SignerTask.join, state, foldl_lines] at users
  rw [users] at sent ⊢
  exact ⟨⟨_, rfl⟩, took.registry, took.node, sent⟩

/-- **An administrative step that makes one call** succeeds if the call is accepted. -/
theorem admin_single (step : String) (signer : AccountId) (mode : Mode) (call : Call)
    (free : signer ∉ w.registry.held)
    (answer : sale.client.nonce w.node w.now signer = (.ok nonce, node))
    (calm : w.aborted sale.options = false) (below : nonce < NonceCursor.last)
    (accepted : ∀ s : Submission, s.watch = {} →
      s.feed = (sale.client.handOver node w.now signer nonce call).1.feed →
      (s.wait sale.client.errors (sale.options.levelOf mode) w.now
        sale.options.timeout).1.isAccepted = true) :
    let u := sale.admin w step signer mode [call]
    u.1 = .ok () ∧ w.Took sale.client u.2 node ⟨signer, nonce, call⟩ := by
  intro u
  let said := say w .info ("🔧 " ++ step ++ "...")
  let t : Tracker := { account := signer, cursor := ⟨nonce⟩ }
  have opened : Tracker.open_ sale.client said signer = (.ok t, said.opening signer nonce node) :=
    Tracker.open_of_nonce free answer
  obtain ⟨stage, outcomes, kept, sent⟩ := Runner.runBatch_single sale.client
    (w := said.opening signer nonce node) (t := t) (o := strict sale.options) mode call calm below
  obtain ⟨account, registry, -⟩ := Runner.acts_runBatch sale.client
    (said.opening signer nonce node) t mode (strict sale.options) [call]
  cases ended : runBatch sale.client (said.opening signer nonce node) t mode
      (strict sale.options) [call] with
  | mk w' r =>
    rw [ended] at stage outcomes kept sent account registry
    have batch : sale.adminBatch w step signer mode [call] = .ok (t, w', r) := by
      simp only [adminBatch, said, opened, ended]
    have enough : shortfall? step [call].length r.outcomes = none := by
      rw [shortfall?_eq_none_iff, outcomes]
      refine ⟨?_, Nat.le_refl _⟩
      intro o mem
      rw [List.mem_singleton.mp mem]
      exact accepted _ rfl rfl
    have admitted : u = (.ok (), say (r.tracker.close w') .info ("✅ " ++ step ++ "...Done")) := by
      have admin : u = _ := admin_of_ok batch
      rw [if_neg (by rw [stage]; simp), enough] at admin
      exact admin
    -- closing the tracker frees the account that opening it took
    have released : (r.tracker.close w').registry = w.registry := by
      show w'.registry.release r.tracker.account = w.registry
      rw [registry, account]
      exact congrArg Registry.mk (List.erase_cons_head ..)
    have before : (said.opening signer nonce node).sent = w.sent :=
      (World.sent_notify _ _).trans (World.sent_line w _)
    rw [before] at sent
    rw [admitted]
    exact ⟨rfl, released, kept,
      (World.sent_line _ _).trans ((World.sent_notify w' _).trans sent)⟩

end Sale

namespace Phase

variable (sale : Sale σ) (w : World σ Call) {nonce : Nat} {node : σ}

/-- A phase goes on after a step of the users without calls. -/
theorem exists_run_users_nil (step : String) (next : Phase) :
    ∃ u, (users step [] next).run sale w = next.run sale u ∧ u.registry = w.registry ∧
      u.node = w.node ∧ u.sent = w.sent := by
  obtain ⟨⟨outcomes, ok⟩, kept⟩ := sale.users_nil w step
  exact ⟨_, by rw [run_users, ok], kept⟩

/-- **A phase goes on after a step of the users that makes one call**, whatever becomes of it. -/
theorem exists_run_users_single (step : String) (name : AccountName) (call : Call) (next : Phase)
    (free : sale.keyring.account name ∉ w.registry.held)
    (answer : sale.client.nonce w.node w.now (sale.keyring.account name) = (.ok nonce, node))
    (calm : w.aborted sale.options = false) (below : nonce < NonceCursor.last) :
    ∃ u, (users step [(name, call)] next).run sale w = next.run sale u ∧
      w.Took sale.client u node ⟨sale.keyring.account name, nonce, call⟩ := by
  obtain ⟨⟨outcomes, ok⟩, took⟩ := sale.users_single step name call free answer calm below
  exact ⟨_, by rw [run_users, ok], took⟩

/-- **A phase goes on after an administrative step that makes one call** if the call is accepted. -/
theorem exists_run_decree (step : String) (call : Call) (next : Phase)
    (free : sale.keyring.account .overlord ∉ w.registry.held)
    (answer : sale.client.nonce w.node w.now (sale.keyring.account .overlord) = (.ok nonce, node))
    (calm : w.aborted sale.options = false) (below : nonce < NonceCursor.last)
    (accepted : ∀ s : Submission, s.watch = {} →
      s.feed =
        (sale.client.handOver node w.now (sale.keyring.account .overlord) nonce call).1.feed →
      (s.wait sale.client.errors .finalized w.now sale.options.timeout).1.isAccepted = true) :
    ∃ u, (decree step call next).run sale w = next.run sale u ∧
      w.Took sale.client u node ⟨sale.keyring.account .overlord, nonce, call⟩ := by
  obtain ⟨ok, took⟩ := sale.admin_single step (sale.keyring.account .overlord) .sequential call free
    answer calm below accepted
  exact ⟨_, by rw [decree, run_admin, ok], took⟩

end Phase

end ShellSale
