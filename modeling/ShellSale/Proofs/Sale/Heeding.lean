import ShellSale.Proofs.Batch.Accounting
import ShellSale.Proofs.Batch.Heeding
import ShellSale.Proofs.Sale.Accounts
import ShellSale.Proofs.Sale.Effects

/-!
## Steps of the sale and their abort signal

The steps of a phase all have the options of the sale, but for the policy of administrative steps.
So they heed one signal, and once it is raised, no step of the phase hands over a call. What was
handed over before is reported all the same.

* `Visit.heeding_after`, `Phase.heeding_run`: steps and phases heed the signal.
* `Phase.quiet_behind`: what comes behind a step that ends under the raised signal.
* `Visit.reports`: what every step reports, and how an administrative step fails that has handed
  over only some of its calls (`Sale.admin_of_short`).
-/

namespace ShellSale

variable {σ : Type}

/-! ### Steps heed the signal -/

namespace Sale

theorem heeding_say (client : Client σ Call) (o : Options) (w : World σ Call) (severity : Severity)
    (text : String) : World.Heeding client o w (say w severity text) :=
  World.Course.heeding (.single (.line _)) (World.sent_line w _) o

theorem beside_say (client : Client σ Call) (a : AccountId) (w : World σ Call) (severity : Severity)
    (text : String) : World.Beside client a w (say w severity text) :=
  ⟨.single (.line _), rfl, World.sentBy_of_sent (World.sent_line w _) a⟩

theorem world_admin_of_error {sale : Sale σ} {w : World σ Call} {step : String} {signer : AccountId}
    {mode : Mode} {calls : List Call} {e : PipelineError}
    (h : sale.adminBatch w step signer mode calls = .error e) :
    (sale.admin w step signer mode calls).2 =
      (Tracker.open_ sale.client (say w .info ("🔧 " ++ step ++ "...")) signer).2 := by
  unfold adminBatch at h
  split at h
  · rename_i e₁ w₁ refused
    simp only [admin, refused]
  · cases h

/-- All that an administrative step does once its batch has ended. -/
theorem course_admin_of_ok {sale : Sale σ} {w : World σ Call} {step : String} {signer : AccountId}
    {mode : Mode} {calls : List Call} {t : Tracker} {w' : World σ Call} {r : Runner Call}
    (h : sale.adminBatch w step signer mode calls = .ok (t, w', r)) :
    World.Course sale.client w' (sale.admin w step signer mode calls).2 := by
  have closed := (Tracker.steps_close sale.client w' r.tracker).course
  rw [admin_of_ok h]
  split
  · exact (Tracker.steps_release sale.client w' r.tracker).course
  · split
    · exact closed
    · exact closed.tail (.line _)

theorem heeding_admin (sale : Sale σ) (w : World σ Call) (step : String) (signer : AccountId)
    (mode : Mode) (calls : List Call) :
    World.Heeding sale.client sale.options w (sale.admin w step signer mode calls).2 := by
  let w₀ := say w .info ("🔧 " ++ step ++ "...")
  have opened := (heeding_say sale.client sale.options w .info ("🔧 " ++ step ++ "...")).trans
    ((Tracker.steps_open sale.client w₀ signer).heeding (Tracker.sent_open ..) _)
  cases batch : sale.adminBatch w step signer mode calls with
  | error e =>
    rw [world_admin_of_error batch]
    exact opened
  | ok p =>
    obtain ⟨t, w', r⟩ := p
    obtain ⟨w₁, claimed, ran⟩ := exists_of_adminBatch batch
    -- the policy of the step is its own, but the signal is that of the sale
    have heeded := (heeding_runBatch sale.client w₁ t mode (strict sale.options) calls).congr
      (show sale.options.abort = (strict sale.options).abort from rfl)
    rw [claimed] at opened
    rw [ran] at heeded
    exact (opened.trans heeded).trans
      ((course_admin_of_ok batch).heeding (sent_admin batch) sale.options)

/-- All that a step of the users does once its tasks have ended. -/
theorem course_users_of_tasks (sale : Sale σ) (w : World σ Call) (step : String) (mode : Mode)
    (calls : List (AccountName × Call)) :
    World.Course sale.client (sale.userTasks w step mode calls).1
      (sale.users w step mode calls).2 := by
  have gathered := SignerTask.course_join sale.client (sale.userTasks w step mode calls).1 [] none
    (sale.userTasks w step mode calls).2
  rw [users_eq]
  rcases joined : SignerTask.join (sale.userTasks w step mode calls).1 [] none
    (sale.userTasks w step mode calls).2 with ⟨w₁, outcomes, _ | e⟩
  · rw [joined] at gathered
    exact gathered.trans (course_lines sale.client w₁ _)
  · rw [joined] at gathered
    exact gathered

theorem heeding_users (sale : Sale σ) (w : World σ Call) (step : String) (mode : Mode)
    (calls : List (AccountName × Call)) :
    World.Heeding sale.client sale.options w (sale.users w step mode calls).2 := by
  have said := heeding_say sale.client sale.options w .info ("👥 " ++ step ++ " for " ++
    toString (batches sale.keyring calls).length ++ " accounts...")
  have driven : World.Heeding sale.client sale.options w (sale.userTasks w step mode calls).1 :=
    said.trans (heeding_of_rounds (runs_tasksOf ..).rounds)
  exact driven.trans ((sale.course_users_of_tasks w step mode calls).heeding
    (sale.sent_users w step mode calls) sale.options)

end Sale

/-- **A step of a phase** heeds the signal of the sale. -/
theorem Visit.heeding_after (sale : Sale σ) (v : Visit σ) :
    World.Heeding sale.client sale.options v.world (v.after sale) := by
  obtain ⟨w, p⟩ := v
  cases p with
  | admin step signer mode calls next => exact sale.heeding_admin ..
  | users step calls next => exact sale.heeding_users ..
  | say text next => exact Sale.heeding_say sale.client sale.options w .info text
  | _ => exact .refl

/-- A step that starts under the raised signal hands over nothing. -/
theorem Visit.handed_of_aborted {sale : Sale σ} {v : Visit σ}
    (raised : v.world.aborted sale.options = true) : v.handed sale = [] := by
  rw [Visit.handed, (v.heeding_after sale).sent_of_aborted raised, List.drop_length]

namespace Phase

/-- **A phase from any step to its end** heeds the signal of the sale. -/
theorem heeding_run (sale : Sale σ) (w : World σ Call) (p : Phase) :
    World.Heeding sale.client sale.options w (p.run sale w).2 := by
  induction w, p using run_induction sale with
  | step w p ih =>
    have first := Visit.heeding_after sale ⟨w, p⟩
    rw [run_eq]
    cases left : p.resume (Visit.reply sale ⟨w, p⟩) with
    | ok q => exact first.trans (ih q left)
    | error result => exact first

/-- Once the signal is raised, the steps that a phase still comes to hand over nothing, and the
signal stays raised. -/
theorem quiet_of_aborted (sale : Sale σ) (w : World σ Call) (p : Phase)
    (raised : w.aborted sale.options = true) :
    ∀ v ∈ p.visits sale w, v.world.aborted sale.options = true ∧ v.handed sale = [] ∧
      (v.after sale).aborted sale.options = true := by
  induction w, p using run_induction sale with
  | step w p ih =>
    have still := (Visit.heeding_after sale ⟨w, p⟩).aborted raised
    rw [visits_eq, List.forall_mem_cons]
    refine ⟨⟨raised, Visit.handed_of_aborted raised, still⟩, ?_⟩
    cases left : p.resume (Visit.reply sale ⟨w, p⟩) with
    | ok q => exact ih q left still
    | error result => simp

/-- **What comes behind a step that ends under the raised signal** hands over nothing, and the
signal stays raised to the end. -/
theorem quiet_behind (sale : Sale σ) (w : World σ Call) (p : Phase) {before later : List (Visit σ)}
    {v : Visit σ} (visits : p.visits sale w = before ++ v :: later)
    (raised : (v.after sale).aborted sale.options = true) :
    (∀ u ∈ later, u.world.aborted sale.options = true ∧ u.handed sale = []) ∧
      (p.run sale w).2.aborted sale.options = true := by
  induction w, p using run_induction sale generalizing before with
  | step w p ih =>
    rw [visits_eq] at visits
    rw [run_eq]
    cases left : p.resume (Visit.reply sale ⟨w, p⟩) with
    | error result =>
      rw [left] at visits
      cases before with
      -- the step in question is the one at hand
      | nil =>
        obtain ⟨rfl, rfl⟩ := List.cons.inj visits
        exact ⟨by simp, raised⟩
      | cons u rest =>
        have tail := (List.cons.inj visits).2
        simp at tail
    | ok q =>
      rw [left] at visits
      cases before with
      | nil =>
        obtain ⟨rfl, rfl⟩ := List.cons.inj visits
        refine ⟨?_, (heeding_run sale _ q).aborted raised⟩
        intro u mem
        obtain ⟨still, quiet, -⟩ := quiet_of_aborted sale _ q raised u mem
        exact ⟨still, quiet⟩
      | cons u rest => exact ih q left (List.cons.inj visits).2

end Phase

/-! ### What steps report -/

namespace Sale

variable {sale : Sale σ} {w : World σ Call} {step : String} {signer : AccountId} {mode : Mode}
  {calls : List Call} {t : Tracker} {w' : World σ Call} {r : Runner Call} {subs : List Submission}

/-- The batch of an administrative step reports what it has done, unless its nonces run out. -/
theorem exists_report_of_adminBatch (h : sale.adminBatch w step signer mode calls = .ok (t, w', r))
    (stage : r.stage ≠ .overflowed) :
    ∃ subs, Batch.Report sale.client mode (strict sale.options) ⟨signer, calls⟩ t.cursor.next w w'
      subs r.outcomes := by
  obtain ⟨w₁, opened, ran⟩ := exists_of_adminBatch h
  obtain ⟨-, -, account, -, now⟩ := Tracker.open_eq_ok opened
  have said : World.Course sale.client w (say w .info ("🔧 " ++ step ++ "...")) :=
    .single (.line _)
  have course := said.trans
    (Tracker.steps_open sale.client (say w .info ("🔧 " ++ step ++ "...")) signer).course
  have sent := (Tracker.sent_open sale.client (say w .info ("🔧 " ++ step ++ "...")) signer).trans
    (World.sent_line w _)
  rw [opened] at course sent
  have report := exists_report_runBatch sale.client mode (strict sale.options) calls course now
    (World.sentBy_of_sent sent t.account)
  rw [ran, account] at report
  exact report stage

/-- What is wrong with some outcomes: the first one that was not accepted, or how many there are. -/
theorem shortfall?_cases (step : String) (expected : Nat) (outcomes : List Outcome) :
    (∃ i x, outcomes[i]? = some x ∧ x.isAccepted = false ∧
        (∀ (j : Nat) y, outcomes[j]? = some y → j < i → y.isAccepted = true) ∧
        shortfall? step expected outcomes = some (.notAccepted step (i + 1) expected x)) ∨
      (∀ x ∈ outcomes, x.isAccepted = true) ∧ shortfall? step expected outcomes =
        if outcomes.length < expected then some (.aborted step outcomes.length expected)
        else none := by
  unfold shortfall?
  split
  · rename_i x i found
    obtain ⟨rejected, j, bound, place, before⟩ := List.find?_eq_some_iff_getElem.mp found
    rw [List.getElem_zipIdx, Nat.zero_add] at place
    obtain ⟨rfl, rfl⟩ := Prod.mk.inj place
    rw [List.length_zipIdx] at bound
    refine Or.inl ⟨j, _, List.getElem?_eq_getElem bound, by simpa using rejected, ?_, rfl⟩
    intro k y listed lt
    obtain ⟨within, rfl⟩ := List.getElem?_eq_some_iff.mp listed
    simpa using before k lt
  · rename_i none
    refine Or.inr ⟨?_, rfl⟩
    intro x mem
    obtain ⟨i, bound, rfl⟩ := List.mem_iff_getElem.mp mem
    have passed := List.find?_eq_none.mp none (outcomes[i], i)
      (List.mem_zipIdx_iff_getElem?.mpr (List.getElem?_eq_getElem bound))
    simpa using passed

/-- **An administrative step that hands over only some of its calls** fails: with the first outcome
that was not accepted if there is one, and else as aborted after the calls it has handed over. -/
theorem admin_of_short (h : sale.adminBatch w step signer mode calls = .ok (t, w', r))
    (stage : r.stage ≠ .overflowed)
    (report : Batch.Report sale.client mode (strict sale.options) ⟨signer, calls⟩ t.cursor.next w w'
      subs r.outcomes) (short : subs.length < calls.length) :
    (∃ i x, r.outcomes[i]? = some x ∧ x.isAccepted = false ∧
        (∀ (j : Nat) y, r.outcomes[j]? = some y → j < i → y.isAccepted = true) ∧
        (sale.admin w step signer mode calls).1 =
          .error (.error (.notAccepted step (i + 1) calls.length x))) ∨
      (∀ x ∈ r.outcomes, x.isAccepted = true) ∧
        (sale.admin w step signer mode calls).1 =
          .error (.error (.aborted step subs.length calls.length)) := by
  rw [admin_of_ok h, if_neg stage]
  rcases shortfall?_cases step calls.length r.outcomes with
    ⟨i, x, listed, rejected, before, shortfall⟩ | ⟨accepted, shortfall⟩
  · rw [shortfall]
    exact Or.inl ⟨i, x, listed, rejected, before, rfl⟩
  · -- nothing stopped the batch, so there is an outcome for each call handed over
    have count : r.outcomes.length = subs.length := by
      refine report.length_eq_of_calm ?_
      intro x mem
      simp [Options.stopsOn, accepted x mem]
    rw [shortfall, count, if_pos short]
    exact Or.inr ⟨accepted, rfl⟩

/-- The calls of an administrative step are those of its batch. -/
theorem sent_admin_eq (h : sale.adminBatch w step signer mode calls = .ok (t, w', r))
    (report : Batch.Report sale.client mode (strict sale.options) ⟨signer, calls⟩ t.cursor.next w w'
      subs r.outcomes) :
    (sale.admin w step signer mode calls).2.sent =
      w.sent ++ Sent.series signer t.cursor.next (calls.take subs.length) := by
  have said : (say w .info ("🔧 " ++ step ++ "...")).sent = w.sent := World.sent_line w _
  have own := report.sentBy
  rw [← World.sentBy_of_sent said] at own
  rw [sent_admin h, (growsTo_adminBatch h).sent_of_sentBy own, said]

/-- **What becomes of each account** in a step of the users: when the step has ended, each batch is
accounted for. -/
theorem accounted_users (sale : Sale σ) (w : World σ Call) (step : String) (mode : Mode)
    (calls : List (AccountName × Call)) (distinct : Function.Injective sale.keyring.account)
    {i : Nat} {b : Batch Call} {t : SignerTask Call}
    (given : (batches sale.keyring calls)[i]? = some b)
    (found : (sale.userTasks w step mode calls).2[i]? = some t) :
    t.account = b.account ∧ ∃ result, t.state = .ended result ∧
      b.Accounted sale.client mode sale.options w (sale.users w step mode calls).2 result := by
  obtain ⟨account, result, state, accounted⟩ :=
    accounted_of_runs (nodup_batches distinct calls) (runs_tasksOf ..) given found
  refine ⟨account, result, state, (accounted.since (beside_say ..)).mono ?_
    (World.sentBy_of_sent (sale.sent_users w step mode calls) _)⟩
  exact sale.course_users_of_tasks w step mode calls

end Sale

/-- What becomes of the calls of a step. An administrative step whose tracker was opened and whose
nonces did not run out reports its first calls, which are all that it hands over, and fails if there
are others. In a step of the users each batch is accounted for, and one that reports outcomes has
one for each of its account's calls. -/
def Visit.Reports (sale : Sale σ) : Visit σ → Prop
  | ⟨w, .admin step signer mode calls next⟩ =>
    let a := sale.keyring.account signer
    let p := sale.admin w step a mode calls
    ∀ t w' r, sale.adminBatch w step a mode calls = .ok (t, w', r) → r.stage ≠ .overflowed →
      ∃ subs, Batch.Report sale.client mode (Sale.strict sale.options) ⟨a, calls⟩ t.cursor.next w w'
          subs r.outcomes ∧
        Visit.handed sale ⟨w, .admin step signer mode calls next⟩ =
          Sent.series a t.cursor.next (calls.take subs.length) ∧
        (subs.length < calls.length →
          (∃ i x, r.outcomes[i]? = some x ∧ x.isAccepted = false ∧
              (∀ (j : Nat) y, r.outcomes[j]? = some y → j < i → y.isAccepted = true) ∧
              p.1 = .error (.error (.notAccepted step (i + 1) calls.length x))) ∨
            (∀ x ∈ r.outcomes, x.isAccepted = true) ∧
              p.1 = .error (.error (.aborted step subs.length calls.length)))
  | ⟨w, .users step calls _⟩ =>
    let p := sale.users w step .pipelined calls
    ∀ (i : Nat) b t, (Sale.batches sale.keyring calls)[i]? = some b →
      (sale.userTasks w step .pipelined calls).2[i]? = some t →
      t.account = b.account ∧ ∃ result, t.state = .ended result ∧
        b.Accounted sale.client .pipelined sale.options w p.2 result ∧
        ∀ outcomes, result = .ok outcomes →
          (p.2.sentBy b.account).length = (w.sentBy b.account).length + outcomes.length
  | _ => True

/-- **What every step reports**, interrupted or not. -/
theorem Visit.reports {sale : Sale σ} (distinct : Function.Injective sale.keyring.account)
    (policy : sale.options.policy = .collectAll) (v : Visit σ) : v.Reports sale := by
  obtain ⟨w, p⟩ := v
  cases p with
  | admin step signer mode calls next =>
    intro t w' r batch stage
    obtain ⟨subs, report⟩ := Sale.exists_report_of_adminBatch batch stage
    refine ⟨subs, report, ?_, Sale.admin_of_short batch stage report⟩
    have sent := Sale.sent_admin_eq batch report
    rw [Visit.handed, Visit.after, sent, List.drop_left]
  | users step calls next =>
    intro i b t given found
    obtain ⟨account, result, state, accounted⟩ :=
      sale.accounted_users w step .pipelined calls distinct given found
    refine ⟨account, result, state, accounted, ?_⟩
    rintro outcomes rfl
    obtain ⟨first, subs, report⟩ := accounted
    rw [report.sentBy, List.length_append, Sent.length_series, List.length_take_of_le
      report.length_le, report.length_eq policy]
  | _ => trivial

end ShellSale
