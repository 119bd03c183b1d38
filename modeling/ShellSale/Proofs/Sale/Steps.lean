import Mathlib.Data.List.Basic
import ShellSale.Proofs.Batch.Tasks
import ShellSale.Sale.Step

/-!
## What a step of the sale comes to

An administrative step succeeds if all its calls were made and accepted, a step of the users if no
task had a hard error, whatever became of the calls.

* `Sale.admin_eq_ok_iff`, `Sale.users_eq_ok_iff`: when a step succeeds.
* `Sale.Met.settled`: after an administrative step that succeeds, every call has been handed over
  and is final, and none was reverted.
* `Sale.growsTo_admin`, `Sale.growsTo_users`: steps do not tell the log that a phase is complete.
-/

namespace ShellSale

variable {σ : Type}

/-! ### Lines -/

/-- An entry that does not tell that a phase is complete: its text does not start with the flag. -/
def Entry.IsUnderway (e : Entry Call) : Prop :=
  ∀ l, e.line? = some l → l.text.toList.head? ≠ some '🏁'

theorem Entry.IsSilent.isUnderway {e : Entry Call} (h : e.IsSilent) : e.IsUnderway := by
  intro l line
  rw [h] at line
  cases line

/-- Work for an account does not tell that a phase is complete. -/
theorem World.GrowsTo.isUnderway {a : AccountId} {w w' : World σ Call}
    (h : World.GrowsTo (Entry.IsBy a) w w') : World.GrowsTo Entry.IsUnderway w w' :=
  h.mono fun _ byA => byA.isSilent.isUnderway

namespace Sale

theorem growsTo_line (w : World σ Call) (l : LogLine) (h : l.text.toList.head? ≠ some '🏁') :
    World.GrowsTo Entry.IsUnderway w (w.record (.line l)) := by
  refine World.growsTo_record w ?_
  intro l' line
  cases line
  exact h

theorem growsTo_lines (w : World σ Call) (lines : List LogLine)
    (h : ∀ l ∈ lines, l.text.toList.head? ≠ some '🏁') :
    World.GrowsTo Entry.IsUnderway w (lines.foldl (fun w l => w.record (.line l)) w) := by
  induction lines generalizing w with
  | nil => exact .refl _ w
  | cons l rest ih =>
    rw [List.forall_mem_cons] at h
    exact (growsTo_line w l h.1).trans (ih _ h.2)

/-! ### Administrative steps -/

/-- The batch of an administrative step: its tracker when it was opened, and the runner at the
end. -/
def adminBatch (sale : Sale σ) (w : World σ Call) (step : String) (signer : AccountId) (mode : Mode)
    (calls : List Call) : Except PipelineError (Tracker × World σ Call × Runner Call) :=
  match Tracker.open_ sale.client (say w .info ("🔧 " ++ step ++ "...")) signer with
  | (.error e, _) => .error e
  | (.ok t, w) => .ok (t, runBatch sale.client w t mode (strict sale.options) calls)

/-- The batch of an administrative step did all that the step is about: its tracker was opened, no
nonce overflowed, and every call was accepted. -/
structure Met (sale : Sale σ) (w : World σ Call) (step : String) (signer : AccountId) (mode : Mode)
    (calls : List Call) (t : Tracker) (w' : World σ Call) (r : Runner Call) : Prop where
  batch : sale.adminBatch w step signer mode calls = .ok (t, w', r)
  stage : r.stage ≠ .overflowed
  length : r.outcomes.length = calls.length
  accepted : ∀ o ∈ r.outcomes, o.isAccepted = true

theorem shortfall?_eq_none_iff (step : String) (expected : Nat) (outcomes : List Outcome) :
    shortfall? step expected outcomes = none ↔
      (∀ o ∈ outcomes, o.isAccepted = true) ∧ expected ≤ outcomes.length := by
  unfold shortfall?
  split
  · rename_i outcome index found
    refine iff_of_false (by simp) ?_
    rintro ⟨all, -⟩
    have mem := (List.mem_zipIdx' (List.mem_of_find?_eq_some found)).2
    have rejected := List.find?_some found
    -- the outcome that was found is one of the outcomes, and was not accepted
    rw [all outcome (mem ▸ List.getElem_mem _)] at rejected
    cases rejected
  · rename_i none
    have all : ∀ o ∈ outcomes, o.isAccepted = true := by
      intro o mem
      obtain ⟨i, below, rfl⟩ := List.mem_iff_getElem.mp mem
      have passed := List.find?_eq_none.mp none (outcomes[i], i)
        (List.mem_zipIdx_iff_getElem?.mpr (List.getElem?_eq_getElem below))
      simpa using passed
    split
    · rename_i short
      refine iff_of_false (by simp) ?_
      rintro ⟨-, enough⟩
      omega
    · rename_i enough
      exact iff_of_true rfl ⟨all, Nat.not_lt.mp enough⟩

theorem exists_of_adminBatch {sale : Sale σ} {w : World σ Call} {step : String} {signer : AccountId}
    {mode : Mode} {calls : List Call} {t : Tracker} {w' : World σ Call} {r : Runner Call}
    (h : sale.adminBatch w step signer mode calls = .ok (t, w', r)) :
    ∃ w₁, Tracker.open_ sale.client (say w .info ("🔧 " ++ step ++ "...")) signer = (.ok t, w₁) ∧
      runBatch sale.client w₁ t mode (strict sale.options) calls = (w', r) := by
  unfold adminBatch at h
  split at h
  · cases h
  · rename_i t₁ w₁ opened
    obtain ⟨rfl, ran⟩ := Prod.mk.inj (Except.ok.inj h)
    exact ⟨w₁, opened, ran⟩

theorem admin_of_error {sale : Sale σ} {w : World σ Call} {step : String} {signer : AccountId}
    {mode : Mode} {calls : List Call} {e : PipelineError}
    (h : sale.adminBatch w step signer mode calls = .error e) :
    (sale.admin w step signer mode calls).1 = .error (.error (.pipeline e)) := by
  unfold adminBatch at h
  split at h
  · rename_i e₁ w₁ refused
    obtain rfl := Except.error.inj h
    simp only [admin, refused]
  · cases h

theorem admin_of_ok {sale : Sale σ} {w : World σ Call} {step : String} {signer : AccountId}
    {mode : Mode} {calls : List Call} {t : Tracker} {w' : World σ Call} {r : Runner Call}
    (h : sale.adminBatch w step signer mode calls = .ok (t, w', r)) :
    sale.admin w step signer mode calls =
      if r.stage = .overflowed then (.error (.overflow .addition), r.tracker.release w')
      else match shortfall? step calls.length r.outcomes with
        | some e => (.error (.error e), r.tracker.close w')
        | none => (.ok (), say (r.tracker.close w') .info ("✅ " ++ step ++ "...Done")) := by
  obtain ⟨w₁, opened, ran⟩ := exists_of_adminBatch h
  by_cases stage : r.stage = .overflowed
  · simp only [admin, opened, ran, stage, ↓reduceIte]
  · cases short : shortfall? step calls.length r.outcomes with
    | some e => simp only [admin, opened, ran, stage, ↓reduceIte, short]
    | none => simp only [admin, opened, ran, stage, ↓reduceIte, short]

/-- What an administrative step adds to the log after its first line is by its signer. -/
theorem growsTo_adminBatch {sale : Sale σ} {w : World σ Call} {step : String} {signer : AccountId}
    {mode : Mode} {calls : List Call} {t : Tracker} {w' : World σ Call} {r : Runner Call}
    (h : sale.adminBatch w step signer mode calls = .ok (t, w', r)) :
    World.GrowsTo (Entry.IsBy signer) (say w .info ("🔧 " ++ step ++ "...")) w' := by
  obtain ⟨w₁, opened, ran⟩ := exists_of_adminBatch h
  have grows := Tracker.growsTo_open sale.client (say w .info ("🔧 " ++ step ++ "...")) signer
  obtain ⟨-, -, account, -, -⟩ := Tracker.open_eq_ok opened
  obtain ⟨-, -, more⟩ := Runner.acts_runBatch sale.client w₁ t mode (strict sale.options) calls
  rw [opened] at grows
  rw [ran, account] at more
  exact grows.trans more

theorem sent_admin {sale : Sale σ} {w : World σ Call} {step : String} {signer : AccountId}
    {mode : Mode} {calls : List Call} {t : Tracker} {w' : World σ Call} {r : Runner Call}
    (h : sale.adminBatch w step signer mode calls = .ok (t, w', r)) :
    (sale.admin w step signer mode calls).2.sent = w'.sent := by
  have closed : (r.tracker.close w').sent = w'.sent := World.sent_notify w' _
  rw [admin_of_ok h]
  split
  · rfl
  · split
    · exact closed
    · exact (World.sent_line _ _).trans closed

/-- The invariant of a batch, at the end of an administrative step. -/
theorem exists_inv_of_adminBatch {sale : Sale σ} {w : World σ Call} {step : String}
    {signer : AccountId} {mode : Mode} {calls : List Call} {t : Tracker} {w' : World σ Call}
    {r : Runner Call} (h : sale.adminBatch w step signer mode calls = .ok (t, w', r)) :
    ∃ o : Runner.Order Call, o.mode = mode ∧ o.options = strict sale.options ∧ o.calls = calls ∧
      o.tracker = t ∧ t.account = signer ∧ t.submissions = [] ∧ o.before = w.sentBy signer ∧
      ∃ issued, Runner.Inv sale.client.errors o issued w'.now w' r := by
  obtain ⟨w₁, opened, ran⟩ := exists_of_adminBatch h
  obtain ⟨-, -, account, submissions, -⟩ := Tracker.open_eq_ok opened
  have inv := Runner.exists_inv_runBatch sale.client w₁ t mode (strict sale.options) calls
  rw [ran] at inv
  refine ⟨_, rfl, rfl, rfl, rfl, account, submissions, ?_, inv⟩
  have sent := Tracker.sent_open sale.client (say w .info ("🔧 " ++ step ++ "...")) signer
  rw [opened] at sent
  rw [account]
  exact World.sentBy_of_sent (sent.trans (World.sent_line w _)) signer

/-- **When an administrative step succeeds.** -/
theorem admin_eq_ok_iff (sale : Sale σ) (w : World σ Call) (step : String) (signer : AccountId)
    (mode : Mode) (calls : List Call) :
    (sale.admin w step signer mode calls).1 = .ok () ↔
      ∃ t w' r, sale.Met w step signer mode calls t w' r := by
  cases batch : sale.adminBatch w step signer mode calls with
  | error e =>
    rw [admin_of_error batch]
    refine iff_of_false (by simp) ?_
    rintro ⟨t, w', r, met⟩
    rw [met.batch] at batch
    cases batch
  | ok p =>
    obtain ⟨t, w', r⟩ := p
    obtain ⟨o, -, -, rfl, -, -, -, -, issued, inv⟩ := exists_inv_of_adminBatch batch
    rw [admin_of_ok batch]
    constructor
    · intro ok
      split at ok
      · cases ok
      · rename_i stage
        split at ok
        · cases ok
        · rename_i none
          obtain ⟨accepted, enough⟩ := (shortfall?_eq_none_iff ..).mp none
          -- there are never more outcomes than calls, so there are just as many
          have most := inv.outcomes_le.trans inv.issued_le
          exact ⟨t, w', r, { batch, stage, length := by omega, accepted }⟩
    · rintro ⟨t₁, w₁, r₁, met⟩
      obtain ⟨rfl, same⟩ := Prod.mk.inj (Except.ok.inj (batch.symm.trans met.batch))
      obtain ⟨rfl, rfl⟩ := Prod.mk.inj same
      have none := (shortfall?_eq_none_iff step o.calls.length r.outcomes).mpr
        ⟨met.accepted, met.length.ge⟩
      rw [if_neg met.stage, none]

/-- The calls of an administrative step after it: each has been handed over, in order, and each is
final and was not reverted, whatever is reported later. -/
structure Settled (sale : Sale σ) (w w' : World σ Call) (signer : AccountId) (calls : List Call)
    (t : Tracker) (r : Runner Call) : Prop where
  sent : w'.sent = w.sent ++ Sent.series signer t.cursor.next calls
  nonces : r.tracker.submissions.map (·.nonce) = List.range' t.cursor.next calls.length
  final : ∀ s ∈ r.tracker.submissions, ∃ block,
    ∀ now, (s.settle sale.client.errors now).watch.status = .finalized block none

/-- **An administrative step that succeeds** leaves none of its calls open. -/
theorem Met.settled {sale : Sale σ} {w : World σ Call} {step : String} {signer : AccountId}
    {mode : Mode} {calls : List Call} {t : Tracker} {w' : World σ Call} {r : Runner Call}
    (h : sale.Met w step signer mode calls t w' r) (level : sale.options.level = .finalized) :
    sale.Settled w (sale.admin w step signer mode calls).2 signer calls t r := by
  obtain ⟨o, -, options, rfl, rfl, rfl, empty, before, issued, inv⟩ :=
    exists_inv_of_adminBatch h.batch
  have all := inv.length_issued h.length
  have finalized : o.options.levelOf o.mode = .finalized := by
    rw [options]
    cases o.mode with
    -- a sequential batch waits for finality whatever the options say
    | sequential => rfl
    | pipelined => exact level
  refine { sent := ?_, nonces := ?_, final := inv.final h.length empty finalized h.accepted }
  · have own := inv.sentBy
    have said : (say w .info ("🔧 " ++ step ++ "...")).sent = w.sent := World.sent_line w _
    rw [before, Runner.Order.series, all, List.take_length, ← World.sentBy_of_sent said] at own
    rw [sent_admin h.batch, (growsTo_adminBatch h.batch).sent_of_sentBy own, said]
  · rw [inv.submissions_eq h.length empty, ← all, ← inv.nonces, List.map_map]
    rfl

/-- An administrative step does not tell the log that a phase is complete. -/
theorem growsTo_admin (sale : Sale σ) (w : World σ Call) (step : String) (signer : AccountId)
    (mode : Mode) (calls : List Call) :
    World.GrowsTo Entry.IsUnderway w (sale.admin w step signer mode calls).2 := by
  have said : World.GrowsTo Entry.IsUnderway w (say w .info ("🔧 " ++ step ++ "...")) :=
    growsTo_line w _ (by simp)
  refine said.trans ?_
  cases batch : sale.adminBatch w step signer mode calls with
  | error e =>
    have opened := Tracker.growsTo_open sale.client (say w .info ("🔧 " ++ step ++ "...")) signer
    unfold adminBatch at batch
    split at batch
    · rename_i e₁ w₁ refused
      rw [refused] at opened
      simp only [admin, refused]
      exact opened.isUnderway
    · cases batch
  | ok p =>
    obtain ⟨t, w', r⟩ := p
    have ran := (growsTo_adminBatch batch).isUnderway
    have closed : World.GrowsTo Entry.IsUnderway w' (r.tracker.close w') :=
      ((World.growsTo_notify (P := Entry.IsBy signer) w' _ trivial).isUnderway).trans
        (.of_eq rfl rfl)
    rw [admin_of_ok batch]
    split
    · exact ran.trans (.of_eq rfl rfl)
    · split
      · exact ran.trans closed
      · exact (ran.trans closed).trans (growsTo_line _ _ (by simp))

/-! ### Steps of the users -/

/-- The tasks of a step of the users, at their ends. -/
def userTasks (sale : Sale σ) (w : World σ Call) (step : String) (mode : Mode)
    (calls : List (AccountName × Call)) : World σ Call × List (SignerTask Call) :=
  let batches := batches sale.keyring calls
  tasksOf sale.client
    (say w .info ("👥 " ++ step ++ " for " ++ toString batches.length ++ " accounts..."))
    batches mode sale.options

/-- All tasks of a step of the users have ended when the step has, whether it succeeds or not. -/
theorem userTasks_ended (sale : Sale σ) (w : World σ Call) (step : String) (mode : Mode)
    (calls : List (AccountName × Call)) :
    ∀ t ∈ (sale.userTasks w step mode calls).2, ∃ result, t.state = .ended result :=
  fun t mem => tasksOf_ended _ _ _ _ _ t mem

/-- A step of the users gathers what its tasks gave. -/
theorem users_eq (sale : Sale σ) (w : World σ Call) (step : String) (mode : Mode)
    (calls : List (AccountName × Call)) :
    sale.users w step mode calls =
      match SignerTask.join (sale.userTasks w step mode calls).1 [] none
        (sale.userTasks w step mode calls).2 with
      | (w, _, some e) => (.error (.error (.pipeline e)), w)
      | (w, outcomes, none) =>
        (.ok outcomes, (remarks step outcomes ++ [verdict step (rejected outcomes)]).foldl
          (fun w l => w.record (.line l)) w) := by
  simp only [users, runAcross_eq]
  rw [← userTasks]
  rcases SignerTask.join (sale.userTasks w step mode calls).1 [] none
    (sale.userTasks w step mode calls).2 with ⟨w₁, outcomes, _ | e⟩
  · rfl
  · rfl

/-- **When a step of the users succeeds.** -/
theorem users_eq_ok_iff (sale : Sale σ) (w : World σ Call) (step : String) (mode : Mode)
    (calls : List (AccountName × Call)) :
    (∃ outcomes, (sale.users w step mode calls).1 = .ok outcomes) ↔
      ∀ t ∈ (sale.userTasks w step mode calls).2, ∃ outcomes, t.state = .ended (.ok outcomes) := by
  have ended := sale.userTasks_ended w step mode calls
  have gathered := SignerTask.join_eq_none_iff (sale.userTasks w step mode calls).1 [] none
    (sale.userTasks w step mode calls).2
  have result : (∃ outcomes, (sale.users w step mode calls).1 = .ok outcomes) ↔
      (SignerTask.join (sale.userTasks w step mode calls).1 [] none
        (sale.userTasks w step mode calls).2).2.2 = none := by
    rw [users_eq]
    rcases SignerTask.join (sale.userTasks w step mode calls).1 [] none
      (sale.userTasks w step mode calls).2 with ⟨w₁, outcomes, _ | e⟩
    · simp
    · simp
  rw [result, gathered]
  constructor
  · rintro ⟨-, clean⟩ t mem
    obtain ⟨e | outcomes, state⟩ := ended t mem
    · exact absurd state (clean t mem e)
    · exact ⟨outcomes, state⟩
  · intro all
    refine ⟨rfl, ?_⟩
    intro t mem e failed
    obtain ⟨outcomes, state⟩ := all t mem
    rw [state] at failed
    cases failed

theorem head?_remarks (step : String) (outcomes : AccountMap (List Outcome)) :
    ∀ l ∈ remarks step outcomes, l.text.toList.head? ≠ some '🏁' := by
  intro l mem
  obtain ⟨⟨account, given⟩, -, mem⟩ := List.mem_flatMap.mp mem
  obtain ⟨outcome, -, rfl⟩ := List.mem_map.mp mem
  dsimp only
  split
  · simp
  · simp

theorem head?_verdict (step : String) (rejected : Nat) :
    (verdict step rejected).text.toList.head? ≠ some '🏁' := by
  unfold verdict
  split
  · simp
  · simp

/-- A step of the users does not tell the log that a phase is complete. -/
theorem growsTo_users (sale : Sale σ) (w : World σ Call) (step : String) (mode : Mode)
    (calls : List (AccountName × Call)) :
    World.GrowsTo Entry.IsUnderway w (sale.users w step mode calls).2 := by
  have said : World.GrowsTo Entry.IsUnderway w
      (say w .info ("👥 " ++ step ++ " for " ++
        toString (batches sale.keyring calls).length ++ " accounts...")) :=
    growsTo_line w _ (by simp)
  have driven := (growsTo_tasksOf sale.client (say w .info ("👥 " ++ step ++ " for " ++
    toString (batches sale.keyring calls).length ++ " accounts..."))
    (batches sale.keyring calls) mode sale.options).mono fun _ => Entry.IsSilent.isUnderway
  have gathered := (SignerTask.growsTo_join (sale.userTasks w step mode calls).1 [] none
    (sale.userTasks w step mode calls).2).mono fun _ => Entry.IsSilent.isUnderway
  have grown := (said.trans driven).trans gathered
  rw [users_eq]
  rcases joined : SignerTask.join (sale.userTasks w step mode calls).1 [] none
    (sale.userTasks w step mode calls).2 with ⟨w₁, outcomes, _ | e⟩
  · rw [joined] at grown
    refine grown.trans (growsTo_lines w₁ _ ?_)
    intro l mem
    rcases List.mem_append.mp mem with mem | mem
    · exact head?_remarks step outcomes l mem
    · rw [List.mem_singleton.mp mem]
      exact head?_verdict step _
  · rw [joined] at grown
    exact grown

end Sale

end ShellSale
