import ShellSale.Proofs.Batch.Aligned
import ShellSale.Proofs.Batch.Sequence
import ShellSale.Proofs.Sale.Heeding
import ShellSale.Proofs.Sale.Opening

/-!
## What an administrative step says of its calls

An administrative step judges a batch by its outcomes only, and these may be fewer than the calls:
because the batch stopped on an outcome, because the signal was raised, or both. The step still
tells these cases apart. It succeeds only if there is no call left out and none that was not
accepted, and otherwise names the first call that was not accepted, or how many were handed over.

* `Runner.Order.InTurn.final`: when a sequential batch that stops on failures hands over a call,
  all calls before are final.
* `Sale.Hands` is what the step hands over, `Sale.Judges` what it says.
* `Sale.admin_spec` is the main result.
-/

namespace ShellSale

variable {σ κ : Type} {client : Client σ κ}

/-! ### Calls handed over in their turns -/

namespace Runner

variable {o : Order κ} {w₀ w : World σ κ} {issued earlier later : List Submission} {s : Submission}

/-- A sequential batch that stops on failures hands over a call only when all calls before are final
and were not reverted. -/
theorem Order.InTurn.final (h : o.InTurn client w₀ w issued) (fresh : ∀ s ∈ issued, s.watch = {})
    (policy : o.options.policy = .abortOnFirstFailure) (mode : o.mode = .sequential)
    (split : issued = earlier ++ s :: later) :
    ∃ call u, o.calls[earlier.length]? = some call ∧ World.Course client w₀ u ∧
      World.Course client
        (u.handOver client o.tracker.account (o.tracker.cursor.next + earlier.length) call) w ∧
      ∀ e ∈ earlier, ∃ block,
        (e.settle client.errors u.now).watch.status = .finalized block none := by
  obtain ⟨call, u, listed, turn⟩ := h earlier s later split
  have level : o.options.levelOf o.mode = .finalized := by
    rw [mode]
    rfl
  have now := turn.now
  have calm := turn.calm
  rw [Order.waitsEnd, level] at now
  rw [Order.waits, level] at calm
  refine ⟨call, u, listed, turn.before, turn.after, ?_⟩
  refine Submission.finalized_of_waits client.errors o.options.timeout ?_ ?_ now.ge
  · intro e mem
    exact fresh e (by rw [split]; exact List.mem_append_left _ mem)
  · intro p mem
    simpa [Options.stopsOn, policy] using calm p.1 (List.mem_map_of_mem mem)

/-- A batch that has ended is on its way, and in order if it is sequential. -/
theorem exists_inTurn_runBatch (client : Client σ κ) (w : World σ κ) (t : Tracker) (mode : Mode)
    (options : Options) (calls : List κ) :
    let p := runBatch client w t mode options calls
    let o : Order κ := ⟨mode, options, calls, t, w.now, w.sentBy t.account⟩
    ∃ issued, Progress client o w issued p.1.now p.1 p.2 ∧
      (mode = .sequential → o.InTurn client w p.1 issued) := by
  cases mode with
  | sequential =>
    obtain ⟨issued, ordered⟩ := exists_ordered_runBatch client w t options calls
    exact ⟨issued, ordered.progress, fun _ => ordered.inTurn⟩
  | pipelined =>
    obtain ⟨issued, progress⟩ :=
      exists_progress_run (exists_progress_start client w t .pipelined options calls .refl)
    exact ⟨issued, progress, fun sequential => by cases sequential⟩

end Runner

namespace PhaseError

theorem message_notAccepted (step : String) (place expected : Nat) (outcome : Outcome) :
    (notAccepted step place expected outcome).message =
      step ++ ": call " ++ toString place ++ " of " ++ toString expected ++ ": " ++
        outcome.text := by
  simp [message, parts]

theorem message_aborted (step : String) (done expected : Nat) :
    (aborted step done expected).message =
      step ++ ": aborted after " ++ toString done ++ " of " ++ toString expected ++ " calls" := by
  simp [message, parts]

end PhaseError

/-! ### The step -/

namespace Sale

/-- **What an administrative step hands over** from a nonce on: its first calls, in order and under
consecutive nonces. A sequential step hands over a call only when all calls before are final and
were not reverted. -/
structure Hands (sale : Sale σ) (w : World σ Call) (signer : AccountId) (nonce : Nat) (mode : Mode)
    (calls : List Call) (w' : World σ Call) (subs : List Submission) : Prop where
  length_le : subs.length ≤ calls.length
  handed : ∀ (j : Nat) s, subs[j]? = some s → ∃ call, calls[j]? = some call ∧
    w.Handed sale.client w' signer (nonce + j) call s
  sent : w'.sent = w.sent ++ Sent.series signer nonce (calls.take subs.length)
  inTurn : mode = .sequential → ∀ earlier s later, subs = earlier ++ s :: later → ∃ call u,
    calls[earlier.length]? = some call ∧ World.Course sale.client w u ∧
    World.Course sale.client
      (u.handOver sale.client signer (nonce + earlier.length) call) w' ∧
    ∀ e ∈ earlier, ∃ block,
      (e.settle sale.client.errors u.now).watch.status = .finalized block none

/-- **What an administrative step says** of the calls that it has handed over and of the outcomes
that it has collected. It succeeds only if all calls were handed over and accepted. If it does not,
it names the first call that was not accepted, behind which a sequential step hands over nothing, or
else how many calls it had handed over when the signal was raised. -/
structure Judges (sale : Sale σ) (step : String) (mode : Mode) (calls : List Call)
    (subs : List Submission) (outcomes : List Outcome) (q : Except Halt Unit × World σ Call) :
    Prop where
  ok_iff : q.1 = .ok () ↔ subs.length = calls.length ∧ ∀ x ∈ outcomes, x.isAccepted = true
  otherwise : q.1 ≠ .ok () →
    (∃ i x e, outcomes[i]? = some x ∧ x.isAccepted = false ∧
      (∀ (j : Nat) y, outcomes[j]? = some y → j < i → y.isAccepted = true) ∧
      (mode = .sequential → subs.length = i + 1) ∧ q.1 = .error (.error e) ∧
      e = .notAccepted step (i + 1) calls.length x ∧
      e.message = step ++ ": call " ++ toString (i + 1) ++ " of " ++ toString calls.length ++
        ": " ++ x.text) ∨
    ∃ e, (∀ x ∈ outcomes, x.isAccepted = true) ∧ subs.length < calls.length ∧
      q.2.aborted sale.options = true ∧ q.1 = .error (.error e) ∧
      e = .aborted step subs.length calls.length ∧
      e.message = step ++ ": aborted after " ++ toString subs.length ++ " of " ++
        toString calls.length ++ " calls"

variable {sale : Sale σ} {w w₁ w' : World σ Call} {step : String} {signer : AccountId} {mode : Mode}
  {calls : List Call} {t : Tracker} {r : Runner Call} {subs : List Submission} {nonce : Nat}

/-- The order of the batch of an administrative step. -/
def adminOrder (sale : Sale σ) (w : World σ Call) (mode : Mode) (calls : List Call) (t : Tracker) :
    Runner.Order Call :=
  ⟨mode, strict sale.options, calls, t, w.now, w.sentBy t.account⟩

/-- The batch of the step on the tracker that was opened for it. -/
theorem adminBatch_of_open (opened : Tracker.open_ sale.client (say w .info ("🔧 " ++ step ++ "..."))
    signer = (.ok t, w₁)) : sale.adminBatch w step signer mode calls =
      .ok (t, runBatch sale.client w₁ t mode (strict sale.options) calls) := by
  unfold adminBatch
  rw [opened]

/-- What the batch hands over is what the step hands over. -/
theorem hands_admin (before : World.Course sale.client w w₁) (sent : w₁.sent = w.sent)
    (after : World.Course sale.client w' (sale.admin w step t.account mode calls).2)
    (same : (sale.admin w step t.account mode calls).2.sent = w'.sent)
    (grows : World.GrowsTo (Entry.IsBy t.account) w₁ w')
    (progress : Runner.Progress sale.client (sale.adminOrder w₁ mode calls t) w₁ subs w'.now w' r)
    (inTurn : mode = .sequential →
      (sale.adminOrder w₁ mode calls t).InTurn sale.client w₁ w' subs) :
    sale.Hands w t.account t.cursor.next mode calls (sale.admin w step t.account mode calls).2 subs
    where
  length_le := progress.paused.inv.issued_le
  handed := by
    intro j s found
    obtain ⟨call, listed, taken⟩ := progress.took j s found
    exact ⟨call, listed, taken.mono before after⟩
  sent := by
    rw [same, grows.sent_of_sentBy progress.paused.inv.sentBy, sent]
    rfl
  inTurn := by
    intro sequential earlier s later split
    obtain ⟨call, u, listed, came, went, final⟩ :=
      (inTurn sequential).final progress.paused.inv.fresh rfl sequential split
    exact ⟨call, u, listed, before.trans came, went.trans after, final⟩

theorem result_of_shortfall (h : sale.adminBatch w step signer mode calls = .ok (t, w', r))
    (stage : r.stage ≠ .overflowed) {e : PhaseError}
    (short : shortfall? step calls.length r.outcomes = some e) :
    (sale.admin w step signer mode calls).1 = .error (.error e) := by
  rw [admin_of_ok h, if_neg stage, short]

theorem result_of_enough (h : sale.adminBatch w step signer mode calls = .ok (t, w', r))
    (stage : r.stage ≠ .overflowed) (enough : shortfall? step calls.length r.outcomes = none) :
    (sale.admin w step signer mode calls).1 = .ok () := by
  rw [admin_of_ok h, if_neg stage, enough]

/-- What the step says of the outcomes of its batch. -/
theorem judges_admin (h : sale.adminBatch w step t.account mode calls = .ok (t, w', r))
    (stage : r.stage = .finished)
    (progress : Runner.Progress sale.client (sale.adminOrder w₁ mode calls t) w₁ subs w'.now w' r)
    (inTurn : mode = .sequential →
      (sale.adminOrder w₁ mode calls t).InTurn sale.client w₁ w' subs) :
    sale.Judges step mode calls subs r.outcomes (sale.admin w step t.account mode calls) := by
  have inv := progress.paused.inv
  have length_le : subs.length ≤ calls.length := inv.issued_le
  obtain ⟨todo, reported⟩ := progress.reported stage
  have raised (still : w'.aborted (strict sale.options) = true) :
      (sale.admin w step t.account mode calls).2.aborted sale.options = true :=
    World.aborted_of_course (course_admin_of_ok h) still
  have unspent : r.stage ≠ .overflowed := by
    rw [stage]
    simp
  -- a call may have been rejected, or too few may have been handed over
  rcases shortfall?_cases step calls.length r.outcomes with
    ⟨i, x, listed, rejected, before, shortfall⟩ | ⟨accepted, shortfall⟩
  · have result := result_of_shortfall h unspent shortfall
    refine ⟨iff_of_false (by simp [result]) ?_, fun _ => Or.inl ⟨i, x, _, listed, rejected, before,
      ?_, result, rfl, PhaseError.message_notAccepted ..⟩⟩
    · rintro ⟨-, accepted⟩
      rw [accepted x (List.mem_of_getElem? listed)] at rejected
      cases rejected
    · intro sequential
      rw [reported] at listed
      exact (inTurn sequential).length_eq rfl (Policy.getElem?_of_reported listed) rejected
  · -- nothing has stopped the batch, so there is an outcome for each call handed over
    have calm : ∀ x ∈ r.outcomes,
        (sale.adminOrder w₁ mode calls t).options.stopsOn x = false := by
      intro x mem
      simp [Options.stopsOn, accepted x mem]
    have count : r.outcomes.length = subs.length := by
      rw [reported] at calm
      rw [reported, Policy.reported_eq_self calm, List.length_map]
      exact Submission.length_waits ..
    rw [count] at shortfall
    by_cases short : subs.length < calls.length
    · rw [if_pos short] at shortfall
      have result := result_of_shortfall h unspent shortfall
      refine ⟨iff_of_false (by simp [result]) (fun whole => absurd whole.1 short.ne), fun _ =>
        Or.inr ⟨_, accepted, short, raised ?_, result, rfl, PhaseError.message_aborted ..⟩⟩
      rcases progress.whole with ⟨x, mem, stops⟩ | still | whole
      · rw [calm x mem] at stops
        cases stops
      · exact still
      · rw [todo] at whole
        exact absurd whole short.ne
    · rw [if_neg short] at shortfall
      have result := result_of_enough h unspent shortfall
      exact ⟨iff_of_true result ⟨by omega, accepted⟩, fun failed => absurd result failed⟩

/-- **What an administrative step comes to**, for a signer whose tracker can be opened. It hands
over its first calls and judges their outcomes, which are aligned with them; only a step that has
used up all nonces ends otherwise. Whichever way it ends, the signer is released. The step stops on
failures whatever the policy of the sale says, and what comes behind it is done with the sale as it
was. -/
theorem admin_spec (sale : Sale σ) {w : World σ Call} {nonce : Nat} {node : σ} (step : String)
    {signer : AccountId} (mode : Mode) (calls : List Call) (free : signer ∉ w.registry.held)
    (answer : sale.client.nonce w.node w.now signer = (.ok nonce, node)) :
    let q := sale.admin w step signer mode calls
    q.2.registry = w.registry ∧
      (∀ policy, ({ sale with options := { sale.options with policy } } : Sale σ).admin w step
        signer mode calls = q) ∧
      (∀ name next, sale.keyring.account name = signer → q.1 = .ok () →
        (Phase.admin step name mode calls next).run sale w = next.run sale q.2) ∧
      ∃ subs, sale.Hands w signer nonce mode calls q.2 subs ∧
        (q.1 = .error (.overflow .addition) ∧ NonceCursor.last ≤ nonce + subs.length ∨
          ∃ outcomes, Batch.Aligned sale.client.errors (strict sale.options)
              (sale.options.levelOf mode) w.now subs outcomes ∧
            sale.Judges step mode calls subs outcomes q) := by
  intro q
  refine ⟨held_admin sale w step signer mode calls, fun _ => rfl, ?_, ?_⟩
  · rintro name next rfl ok
    have split : q = (.ok (), q.2) := Prod.ext ok rfl
    rw [Phase.run, show sale.admin w step (sale.keyring.account name) mode calls = q from rfl,
      split]
  -- the signer is free, so the tracker opens with the nonce that the node reports
  · let t : Tracker := { account := signer, cursor := ⟨nonce⟩ }
    let said := say w .info ("🔧 " ++ step ++ "...")
    let w₁ := said.opening signer nonce node
    have opened : Tracker.open_ sale.client said signer = (.ok t, w₁) :=
      Tracker.open_of_nonce free answer
    have came : World.Course sale.client w w₁ := by
      have steps := (Tracker.steps_open sale.client said signer).course
      rw [opened] at steps
      exact .head (.line _) steps
    have sent : w₁.sent = w.sent := (World.sent_notify ..).trans (World.sent_line w _)
    obtain ⟨subs, progress, inTurn⟩ :=
      Runner.exists_inTurn_runBatch sale.client w₁ t mode (strict sale.options) calls
    obtain ⟨-, -, grows⟩ := Runner.acts_runBatch sale.client w₁ t mode (strict sale.options) calls
    have ended := Runner.stage_runBatch sale.client w₁ t mode (strict sale.options) calls
    have batch : sale.adminBatch w step signer mode calls = _ := adminBatch_of_open opened
    cases ran : runBatch sale.client w₁ t mode (strict sale.options) calls with
    | mk w' r =>
      rw [ran] at progress inTurn grows ended batch
      refine ⟨subs, hands_admin came sent (course_admin_of_ok batch) (sent_admin batch) grows
        progress inTurn, ?_⟩
      rcases ended with finished | overflowed
      · right
        refine ⟨r.outcomes, ?_, judges_admin batch finished progress inTurn⟩
        rw [(progress.reported finished).2]
        exact Batch.aligned_reported ..
      · left
        have full := progress.full overflowed
        rw [progress.paused.inv.cursor] at full
        refine ⟨?_, full⟩
        rw [show q = _ from admin_of_ok batch, if_pos overflowed]

/-- A sequential step whose second call is invalid. It says so, the third call is not handed over,
and the signer is released. -/
theorem admin_spec_rejected :
    let sale : Sale Unit :=
      { client :=
          { nonce := fun _ _ _ => (.ok 5, ())
            handOver := fun _ now _ nonce _ =>
              let settled : StatusEvent :=
                if nonce = 6 then .invalid "stale" else .finalized (.ofNat nonce) []
              ({ feed := [(now, .event settled)] }, ())
            errors := fun _ _ => none }
        storage :=
          { collection := fun _ _ => .ok none, era := fun _ _ => .ok 0
            owned := fun _ _ _ _ => .ok [], food := fun _ _ _ => .ok [] }
        keyring := ⟨fun name => .ofNat name.index⟩
        options := { timeout := 1000 } }
    let calls : List Call := [.claimSpirit, .initializeWorldClock, .claimSpirit]
    let signer := sale.keyring.account .overlord
    let w : World Unit Call := { node := () }
    let q := sale.admin w "Set up" signer .sequential calls
    signer ∉ w.registry.held ∧ sale.client.nonce w.node w.now signer = (.ok 5, ()) ∧
      q.1 = .error (.error (.notAccepted "Set up" 2 3 (.invalid "stale"))) ∧
      q.2.sent = Sent.series signer 5 [.claimSpirit, .initializeWorldClock] ∧
      q.2.registry = w.registry := by
  intro sale calls signer w q
  have free : signer ∉ w.registry.held := by simp [w]
  have said : q.1 = .error (.error (.notAccepted "Set up" 2 3 (.invalid "stale"))) := by
    have batch : sale.adminBatch w "Set up" signer .sequential calls = _ :=
      adminBatch_of_open (Tracker.open_of_nonce free rfl)
    simp only [runBatch] at batch
    rw [Runner.run_of_waiting rfl, Runner.run_of_waiting rfl,
      Runner.run_of_ended (fun _ _ _ stage => by cases stage)] at batch
    rw [show q = _ from admin_of_ok batch]
    rfl
  obtain ⟨released, -, -, subs, hands, spent | ⟨outcomes, -, judges⟩⟩ :=
    sale.admin_spec "Set up" .sequential calls free rfl
  · cases said.symm.trans spent.1
  · refine ⟨free, rfl, said, ?_, released⟩
    have failed : q.1 ≠ .ok () := by rw [said]; simp
    rcases judges.otherwise failed with ⟨i, x, e, -, -, -, count, told, rfl, -⟩ |
      ⟨e, -, -, -, told, rfl, -⟩
    · cases said.symm.trans told
      rw [hands.sent, count rfl]
      rfl
    · cases said.symm.trans told

end Sale

end ShellSale
