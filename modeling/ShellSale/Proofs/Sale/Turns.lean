import ShellSale.Proofs.Batch.Completing
import ShellSale.Proofs.Sale.Admin
import ShellSale.Proofs.Sale.Credit
import ShellSale.Proofs.Sale.Listed

/-!
## Steps that nothing hinders

A step that nothing from outside cuts short does all that it is about. In a step of the users every
account hands over just its own calls, in their order, and all waits are over when the step is,
whatever became of the calls. A step with a single call of one account hands over that call, and
goes on only if the call is final and was not reverted.

* `Sale.Unhindered` says that nothing cuts a run short.
* `Sale.Turn` is what a step of the users does, `Sale.Decree` what a step with a single call does.
* `Sale.turn_users` and `Sale.exists_decree_admin` are the main results.
* `Phase.exists_turn_run`, `Phase.exists_decree_run`: they hold of the steps of a run.
-/

namespace ShellSale

variable {σ : Type} {client : Client σ Call}

/-- Nothing from outside cuts a run short: the signal is not raised by its end, it does not end with
a hard error of the pipeline or by an overflow, and no reading of the chain fails it. -/
structure Sale.Unhindered (sale : Sale σ) (q : Except Halt Unit × World σ Call) : Prop where
  unraised : q.2.aborted sale.options = false
  fine : ∀ e, q.1 ≠ .error (.error (.pipeline e))
  fits : ∀ o, q.1 ≠ .error (.overflow o)
  reads : ∀ e, q.1 ≠ .error (.error (.chainState e))

/-! ### Lines in the log -/

/-- Between two worlds there is nothing but lines in the log. -/
structure World.Told (client : Client σ Call) (w w' : World σ Call) : Prop where
  course : World.Course client w w'
  now : w'.now = w.now
  node : w'.node = w.node
  sent : w'.sent = w.sent

namespace World.Told

variable {w w' w'' : World σ Call}

theorem refl (client : Client σ Call) (w : World σ Call) : Told client w w :=
  ⟨.refl, rfl, rfl, rfl⟩

theorem trans (h : Told client w w') (h' : Told client w' w'') : Told client w w'' where
  course := h.course.trans h'.course
  now := h'.now.trans h.now
  node := h'.node.trans h.node
  sent := h'.sent.trans h.sent

theorem say (client : Client σ Call) (w : World σ Call) (severity : Severity) (text : String) :
    Told client w (Sale.say w severity text) :=
  ⟨.single (.line _), rfl, rfl, World.sent_line w _⟩

/-- Lines go past every account. -/
theorem beside (h : Told client w w') (a : AccountId) : World.Beside client a w w' :=
  ⟨h.course, h.now, World.sentBy_of_sent h.sent a⟩

end World.Told

namespace Sale

variable {sale : Sale σ} {w w' v : World σ Call}

/-! ### Steps of the users -/

/-- **What a step of the users does between two worlds.** Each account hands over just the calls
that are given for it, and has done so when the second world is reached, where all waits for them
are over. No other account hands over a call. -/
structure Turn (sale : Sale σ) (w w' : World σ Call) (calls : AccountName → List Call) : Prop where
  each : ∀ name, ∃ first subs outcomes,
    Batch.Done sale.client .pipelined sale.options ⟨sale.keyring.account name, calls name⟩ first w
      w' subs outcomes
  others : ∀ a, (∀ name, sale.keyring.account name ≠ a) → w'.sentBy a = w.sentBy a

theorem Turn.since {calls : AccountName → List Call} (h : sale.Turn w w' calls)
    (told : World.Told sale.client v w) : sale.Turn v w' calls where
  each := by
    intro name
    obtain ⟨first, subs, outcomes, done⟩ := h.each name
    exact ⟨first, subs, outcomes, done.since (told.beside _)⟩
  others := fun a other => (h.others a other).trans (told.beside a).sentBy

/-- The calls that an account makes come to those that it has made. -/
theorem Turn.map_call {calls : AccountName → List Call} (h : sale.Turn w w' calls)
    (name : AccountName) : (w'.sentBy (sale.keyring.account name)).map (·.call) =
      (w.sentBy (sale.keyring.account name)).map (·.call) ++ calls name := by
  obtain ⟨first, subs, outcomes, made⟩ := h.each name
  rw [made.sentBy, List.map_append, Sent.map_call_series]

/-- **A step of the users that nothing hinders** is a turn of its accounts. -/
theorem turn_users (distinct : Function.Injective sale.keyring.account) {step : String}
    {calls : List (AccountName × Call)}
    (ok : ∃ outcomes, (sale.users w step .pipelined calls).1 = .ok outcomes)
    (unraised : (sale.users w step .pipelined calls).2.aborted sale.options = false) :
    sale.Turn w (sale.users w step .pipelined calls).2 fun name => ownOf name calls := by
  have ended := (users_eq_ok_iff sale w step .pipelined calls).mp ok
  obtain ⟨results, ok⟩ := ok
  have nodup : ((batches sale.keyring calls).map (·.account)).Nodup :=
    nodup_accounts_batches fun _ _ _ _ same => distinct same
  -- an account without a batch makes no call
  have absent : ∀ a, (∀ name ∈ calls.map (·.1), sale.keyring.account name ≠ a) →
      (sale.users w step .pipelined calls).2.sentBy a = w.sentBy a := by
    intro a others
    refine sentBy_users_of_not_mem nodup ok fun mem => ?_
    obtain ⟨b, ofBatch, rfl⟩ := List.mem_map.mp mem
    obtain ⟨name, listed, rfl⟩ := mem_batches_iff.mp ofBatch
    exact others name listed rfl
  refine { each := ?_, others := fun a others => absent a fun name _ => others name }
  intro name
  by_cases mem : name ∈ calls.map (·.1)
  -- the batch of the account is done at the end of the step, as its task has ended
  · obtain ⟨w₁, answer, world⟩ := users_of_ok ok
    have course : World.Course sale.client w₁ (sale.users w step .pipelined calls).2 := by
      rw [world]
      exact course_lines ..
    have sent : (sale.users w step .pipelined calls).2.sent = w₁.sent := by
      rw [world]
      exact sent_lines ..
    obtain ⟨i, given⟩ := List.mem_iff_getElem?.mp (mem_batches_iff.mpr ⟨name, mem, rfl⟩)
    have accounts : (batches sale.keyring calls).map (·.account) =
        (sale.userTasks w step .pipelined calls).2.map (·.account) :=
      (accounts_tasksOf ..).symm
    obtain ⟨t, found, -⟩ := exists_getElem?_of_map_eq accounts given
    obtain ⟨outcomes, state⟩ := ended t (List.mem_of_getElem? found)
    have calm : w₁.aborted sale.options = false := by
      by_contra raised
      rw [World.aborted_of_course course (by simpa using raised)] at unraised
      cases unraised
    have done := done_runAcross nodup (by rw [answer]; exact calm) given found state
    rw [answer] at done
    obtain ⟨first, subs, done⟩ := done
    exact ⟨first, subs, outcomes, (done.since ((World.Told.say ..).beside _)).mono course
      (World.sentBy_of_sent sent _)⟩
  · refine ⟨0, [], [], .nil ((ownOf_eq_nil_iff name calls).mpr mem) (sale.course_users ..) ?_⟩
    refine absent _ fun other listed same => mem ?_
    exact distinct same ▸ listed

/-! ### Steps with a single call -/

/-- **What a step with a single call of one account does between two worlds.** It hands over the
call and no other, under the nonce that the node reports for the account. Its outcome is that of a
wait until the call is final, and this wait is over when the second world is reached. If the outcome
is accepted, the call is final there and was not reverted. -/
structure Decree (sale : Sale σ) (w w' : World σ Call) (signer : AccountId) (call : Call)
    (outcome : Outcome) (nonce : Nat) (s : Submission) : Prop where
  opens : World.Opens sale.client w w' signer nonce
  sent : w'.sent = w.sent ++ [⟨signer, nonce, call⟩]
  handed : w.Handed sale.client w' signer nonce call s
  outcome_eq : outcome = (s.wait sale.client.errors .finalized w.now sale.options.timeout).1
  past : (s.wait sale.client.errors .finalized w.now sale.options.timeout).2 ≤ w'.now
  final : outcome.isAccepted = true → ∃ block,
    (s.settle sale.client.errors w'.now).watch.status = .finalized block none

theorem Decree.since {signer : AccountId} {call : Call} {outcome : Outcome} {nonce : Nat}
    {s : Submission} (h : sale.Decree w w' signer call outcome nonce s)
    (told : World.Told sale.client v w) : sale.Decree v w' signer call outcome nonce s :=
  { h with
    opens := h.opens.since (told.beside signer) .refl
    sent := by rw [h.sent, told.sent]
    handed := h.handed.mono told.course .refl
    outcome_eq := told.now ▸ h.outcome_eq
    past := told.now ▸ h.past }

/-- What the outcomes of a single call come to. -/
theorem shortfall?_single (step : String) (outcome : Outcome) :
    shortfall? step 1 [outcome] =
      if outcome.isAccepted then none else some (.notAccepted step 1 1 outcome) := by
  cases accepted : outcome.isAccepted <;> simp [shortfall?, accepted, List.zipIdx]

/-- The batch of a single call that was not cut short: it has handed over the call, and reports the
outcome of one wait for it. -/
theorem exists_single_of_progress {t : Tracker} {call : Call} {subs : List Submission}
    {r : Runner Call}
    (progress : Runner.Progress sale.client (sale.adminOrder w .sequential [call] t) w subs w'.now
      w' r) (finished : r.stage = .finished)
    (unraised : w'.aborted (strict sale.options) = false) :
    ∃ s, subs = [s] ∧ s.watch = {} ∧
      r.outcomes = [(s.wait sale.client.errors .finalized w.now sale.options.timeout).1] ∧
      (s.wait sale.client.errors .finalized w.now sale.options.timeout).2 = w'.now := by
  have inv := progress.paused.inv
  obtain ⟨todo, reported⟩ := progress.reported finished
  -- the batch has stopped on an outcome, or there is nothing left to do: either way the call was
  -- handed over
  have one : subs.length = 1 := by
    have most : subs.length ≤ 1 := inv.issued_le
    rcases progress.whole with ⟨x, mem, -⟩ | raised | whole
    · have some := List.length_pos_of_mem mem
      have fewer := inv.outcomes_le
      omega
    · exact absurd (raised.symm.trans unraised) (by simp)
    · rwa [todo] at whole
  obtain ⟨s, rfl⟩ := List.length_eq_one_iff.mp one
  have outcomes : r.outcomes =
      [(s.wait sale.client.errors .finalized w.now sale.options.timeout).1] := by
    rw [reported, Runner.Order.waits, Submission.waits, Submission.waits, List.map_singleton,
      Policy.reported_cons]
    split
    · rfl
    · rfl
  have last := inv.last_eq
  rw [outcomes] at last
  exact ⟨s, rfl, inv.fresh s (List.mem_singleton_self s), outcomes, last.symm⟩

/-- **A step with a single call that nothing hinders** is a decree, and succeeds exactly if the
outcome is accepted. -/
theorem exists_decree_admin {step : String} {signer : AccountId} {call : Call}
    (unraised : (sale.admin w step signer .sequential [call]).2.aborted sale.options = false)
    (fine : ∀ e, (sale.admin w step signer .sequential [call]).1 ≠ .error (.error (.pipeline e)))
    (fits : ∀ o, (sale.admin w step signer .sequential [call]).1 ≠ .error (.overflow o)) :
    ∃ outcome nonce s,
      sale.Decree w (sale.admin w step signer .sequential [call]).2 signer call outcome nonce s ∧
      (sale.admin w step signer .sequential [call]).1 =
        if outcome.isAccepted then .ok () else .error (.error (.notAccepted step 1 1 outcome)) := by
  cases batch : sale.adminBatch w step signer .sequential [call] with
  | error e => exact absurd (admin_of_error batch) (fine e)
  | ok p =>
    obtain ⟨t, w₂, r⟩ := p
    -- an overflow would be the result of the step
    have stage : r.stage ≠ .overflowed := by
      intro overflowed
      refine fits .addition ?_
      rw [admin_of_ok batch, if_pos overflowed]
    obtain ⟨w₁, opened, ran⟩ := exists_of_adminBatch batch
    obtain ⟨-, -, account, -, now⟩ := Tracker.open_eq_ok opened
    have now : w₁.now = w.now := now
    obtain ⟨came, sent⟩ := course_opened opened
    have went := course_admin_of_ok batch
    obtain ⟨subs, progress, inTurn⟩ := Runner.exists_inTurn_runBatch sale.client w₁ t .sequential
      (strict sale.options) [call]
    obtain ⟨-, -, grows⟩ := Runner.acts_runBatch sale.client w₁ t .sequential
      (strict sale.options) [call]
    have ended := Runner.stage_runBatch sale.client w₁ t .sequential (strict sale.options) [call]
    have ran' := course_runBatch sale.client w₁ t .sequential (strict sale.options) [call]
    rw [ran] at progress inTurn grows ended ran'
    -- a signal raised during the batch would be raised at the end
    have calm : w₂.aborted (strict sale.options) = false := by
      by_contra raised
      have raised : w₂.aborted sale.options = true := Bool.eq_true_of_not_eq_false raised
      rw [World.aborted_of_course went raised] at unraised
      cases unraised
    obtain ⟨s, rfl, fresh, outcomes, past⟩ :=
      exists_single_of_progress progress (ended.resolve_right stage) calm
    rw [now] at outcomes past
    subst account
    have hands := hands_admin came sent went (sent_admin batch) grows progress inTurn
    obtain ⟨call', listed, handed⟩ := hands.handed 0 s rfl
    obtain rfl := Option.some.inj listed
    refine ⟨(s.wait sale.client.errors .finalized w.now sale.options.timeout).1, t.cursor.next, s,
      ?_, ?_⟩
    · exact {
        opens := ⟨_, (World.Told.say ..).beside _, Tracker.nonce_of_open opened,
          ⟨t, by rw [opened], rfl⟩, by rw [opened]; exact ran'.trans went⟩
        sent := hands.sent
        handed
        outcome_eq := rfl
        past := past.trans_le went.now_le
        final := fun accepted => Submission.finalized_of_wait sale.client.errors
          (Submission.sound_of_fresh fresh) accepted (past.trans_le went.now_le) }
    -- the step judges the one outcome
    · have judged := shortfall?_single step
        (s.wait sale.client.errors .finalized w.now sale.options.timeout).1
      rw [← outcomes] at judged
      split
      · rename_i accepted
        rw [if_pos accepted] at judged
        exact result_of_enough batch stage judged
      · rename_i rejected
        rw [if_neg rejected] at judged
        exact result_of_shortfall batch stage judged

end Sale

namespace Phase

variable {sale : Sale σ} {w : World σ Call}

/-! ### Runs -/

/-- A step at whose end the signal is not raised, if it is not raised at the end of the run. -/
theorem unraised_of_run {p : Phase} (h : sale.Unhindered (p.run sale w)) :
    w.aborted sale.options = false := by
  by_contra raised
  have still := (heeding_run sale w p).aborted (Bool.eq_true_of_not_eq_false raised)
  rw [h.unraised] at still
  cases still

/-- **A decree of the overlord** in a run that nothing hinders. -/
theorem exists_decree_run {step : String} {call : Call} {next : Phase}
    (h : sale.Unhindered ((decree step call next).run sale w)) :
    ∃ u outcome nonce s,
      sale.Decree w u (sale.keyring.account .overlord) call outcome nonce s ∧
      (decree step call next).run sale w =
        if outcome.isAccepted then next.run sale u
        else (.error (.error (.notAccepted step 1 1 outcome)), u) := by
  have result := run_admin sale w step .overlord .sequential [call] next
  rw [← decree] at result
  generalize made : sale.admin w step (sale.keyring.account .overlord) .sequential [call] = q
    at result
  obtain ⟨answer, u⟩ := q
  -- the step is as undisturbed as the run that begins with it
  have clean : u.aborted sale.options = false ∧ (∀ e, answer ≠ .error (.error (.pipeline e))) ∧
      ∀ o, answer ≠ .error (.overflow o) := by
    rw [result] at h
    cases answer with
    | error halt => exact ⟨h.unraised, h.fine, h.fits⟩
    | ok => exact ⟨unraised_of_run h, by simp, by simp⟩
  obtain ⟨outcome, nonce, s, decreed, judged⟩ := Sale.exists_decree_admin
    (by rw [made]; exact clean.1) (by rw [made]; exact clean.2.1) (by rw [made]; exact clean.2.2)
  rw [made] at decreed judged
  refine ⟨u, outcome, nonce, s, decreed, ?_⟩
  dsimp only at result judged
  by_cases accepted : outcome.isAccepted = true
  · rw [result, judged, if_pos accepted, if_pos accepted]
  · rw [result, judged, if_neg accepted, if_neg accepted]

/-- A step of the users fails only with a hard error. -/
theorem exists_error_of_users {step : String} {calls : List (AccountName × Call)} {halt : Halt}
    (failed : (sale.users w step .pipelined calls).1 = .error halt) :
    ∃ e, halt = .error (.pipeline e) := by
  rw [Sale.users_eq] at failed
  split at failed
  · exact ⟨_, (Except.error.inj failed).symm⟩
  · cases failed

/-- **A step of the users** in a run that nothing hinders. -/
theorem exists_turn_run (distinct : Function.Injective sale.keyring.account) {step : String}
    {calls : List (AccountName × Call)} {next : Phase}
    (h : sale.Unhindered ((users step calls next).run sale w)) :
    ∃ u, sale.Turn w u (fun name => ownOf name calls) ∧
      (users step calls next).run sale w = next.run sale u := by
  have result := run_users sale w step calls next
  rw [result] at h ⊢
  cases answer : (sale.users w step .pipelined calls).1 with
  | error halt =>
    obtain ⟨e, rfl⟩ := exists_error_of_users answer
    rw [answer] at h
    exact absurd rfl (h.fine e)
  | ok outcomes =>
    rw [answer] at h
    exact ⟨_, Sale.turn_users distinct ⟨outcomes, answer⟩ (unraised_of_run h), rfl⟩

/-- A reading of the chain in a run that nothing hinders has an answer. -/
theorem exists_answer {α : Type} {answer : Except ChainStateError α}
    {next : α → Except Halt Unit × World σ Call} (h : sale.Unhindered (onAnswer w answer next)) :
    ∃ x, answer = .ok x ∧ onAnswer w answer next = next x := by
  cases answer with
  | error e => exact absurd rfl (h.reads e)
  | ok x => exact ⟨x, rfl, rfl⟩

end Phase

end ShellSale
