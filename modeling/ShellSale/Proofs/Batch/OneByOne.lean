import ShellSale.Proofs.Batch.Aligned
import ShellSale.Proofs.Batch.Heeding
import ShellSale.Proofs.Batch.Sequence

/-!
## Submissions and outcomes of a sequential batch

A sequential batch looks at its signal, hands over a call, waits for it and looks at its outcome,
call by call. It stops at the signal before it hands over a call, or at an outcome after it has
collected that; so whichever way it stops, it has one outcome for each call that it has handed over.

* `Runner.lt_length_of_overflowed`: nonces run out only before a call that is left out.
* `Runner.Ordered.outcomes_eq`: the outcomes are those of waits for all that was handed over.
* `Runner.Ordered.left_out`: what it takes to leave out a call.
* `Runner.runBatch_one_by_one` is the main result.
-/

namespace ShellSale

variable {σ κ : Type} {client : Client σ κ}

namespace Runner

variable {o : Order κ} {issued : List Submission} {w₀ w : World σ κ} {r : Runner κ}

/-! ### Exhausted nonces -/

theorem todo_issue_of_overflowed (client : Client σ κ) (w : World σ κ) (r : Runner κ)
    (calls : List κ) (overflowed : (issue client w r calls).2.stage = .overflowed) :
    (issue client w r calls).2.todo ≠ [] := by
  induction calls generalizing w r with
  | nil => cases overflowed
  | cons call rest ih =>
    unfold issue at overflowed ⊢
    split at overflowed
    · cases overflowed
    · rename_i free
      rw [if_neg free]
      split at overflowed
      · cases overflowed
      · rename_i calm
        rw [if_neg calm]
        cases submitted : r.tracker.submit? client w call with
        | none => simp
        | some q =>
          rw [submitted] at overflowed
          exact ih _ _ overflowed

theorem overflowed_of_awaitNext {client : Client σ κ}
    (overflowed : (r.awaitNext client w).stage = .overflowed) : r.stage = .overflowed := by
  unfold awaitNext at overflowed
  split at overflowed
  · cases overflowed
  · exact overflowed

theorem todo_proceed_of_overflowed (client : Client σ κ) (w : World σ κ) (r : Runner κ)
    (overflowed : (r.proceed client w).2.stage = .overflowed) :
    (r.proceed client w).2.todo ≠ [] := by
  have kept : (r.proceed client w).2.todo = (issue client w r r.todo).2.todo := todo_awaitNext ..
  rw [kept]
  exact todo_issue_of_overflowed client w r r.todo (overflowed_of_awaitNext overflowed)

/-- A batch that has used up all nonces has a call that it could not hand over. -/
theorem todo_runBatch_of_overflowed (client : Client σ κ) (w : World σ κ) (t : Tracker)
    (mode : Mode) (options : Options) (calls : List κ) :
    (runBatch client w t mode options calls).2.stage = .overflowed →
      (runBatch client w t mode options calls).2.todo ≠ [] := by
  refine run_keeps (P := fun _ r => r.stage = .overflowed → r.todo ≠ []) ?_
    (todo_proceed_of_overflowed client w _)
  intro w r nonce outcome wake _ _
  rw [collect_eq]
  split
  · intro overflowed
    cases overflowed
  · exact todo_proceed_of_overflowed client _ _

/-- A batch with calls to do has not handed over all of its calls. -/
theorem Inv.length_lt {table : ErrorTable} {last : Nat} (h : Inv table o issued last w r)
    (left : r.todo ≠ []) : issued.length < o.calls.length := by
  rcases h.todo with todo | todo
  · rw [todo] at left
    by_contra ge
    exact left (List.drop_eq_nil_of_le (Nat.le_of_not_lt ge))
  · exact absurd todo left

/-! ### Outcomes -/

/-- **One outcome for each call**: the outcomes of a sequential batch that has finished are those of
waits for all that it has handed over. -/
theorem Ordered.outcomes_eq (h : Ordered client o w₀ issued w r) (finished : r.stage = .finished) :
    r.outcomes = (o.waits client.errors issued).map (·.1) := by
  obtain ⟨-, reported⟩ := h.progress.reported finished
  rcases Policy.reported_cases o.options ((o.waits client.errors issued).map (·.1)) with
    ⟨all, -⟩ | ⟨front, last, rest, split, cut, -, stops⟩
  · rw [reported, all]
  · -- nothing was handed over behind the outcome that the batch has stopped on
    have policy : o.options.policy = .abortOnFirstFailure ∧ last.isAccepted = false := by
      simpa [Options.stopsOn] using stops
    have found : ((o.waits client.errors issued).map (·.1))[front.length]? = some last := by
      rw [split, List.append_assoc]
      simp
    have count := h.inTurn.length_eq policy.1 found policy.2
    have length := congrArg List.length split
    rw [List.length_map, Order.waits, Submission.length_waits, count] at length
    obtain rfl : rest = [] := by
      rw [← List.length_eq_zero_iff]
      simp only [List.length_append, List.length_cons, List.length_nil] at length
      omega
    rw [reported, cut, split, List.append_nil]

/-- **What it takes to leave out a call**: the signal is raised when the call is due, or the batch
has stopped on its last outcome and on none before. -/
theorem Ordered.left_out (h : Ordered client o w₀ issued w r) (finished : r.stage = .finished)
    (short : issued.length < o.calls.length) :
    w.aborted o.options = true ∨ o.options.policy = .abortOnFirstFailure ∧
      ∃ front last, r.outcomes = front ++ [last] ∧ (∀ x ∈ front, x.isAccepted = true) ∧
        last.isAccepted = false := by
  obtain ⟨todo, reported⟩ := h.progress.reported finished
  rcases h.progress.whole with ⟨x, mem, stops⟩ | raised | count
  · right
    have policy : o.options.policy = .abortOnFirstFailure := by
      simp only [Options.stopsOn, Bool.and_eq_true, decide_eq_true_eq] at stops
      exact stops.1
    have stopsOn (y : Outcome) : o.options.stopsOn y = !y.isAccepted := by
      simp [Options.stopsOn, policy]
    refine ⟨policy, ?_⟩
    rcases Policy.reported_cases o.options ((o.waits client.errors issued).map (·.1)) with
      ⟨all, calm⟩ | ⟨front, last, -, -, cut, calm, ends⟩
    · rw [reported, all] at mem
      rw [calm x mem] at stops
      cases stops
    · refine ⟨front, last, reported.trans cut, ?_, by simpa [stopsOn] using ends⟩
      intro y mem
      simpa [stopsOn] using calm y mem
  · exact Or.inl raised
  · rw [todo] at count
    exact absurd count short.ne

/-! ### Whole batches -/

/-- **Submissions and outcomes of a sequential batch.** It hands over a prefix of its calls and no
other call, each under the next nonce, when the wait for the one before has ended, and none while
its signal is raised. It has one outcome for each of them, which is that of a wait for finality that
starts when the call is handed over, whatever level the options name. It ends when the last of these
waits ends, and leaves out calls only if the signal is raised by then, or if it stops on failures
and the last outcome is the first that is not accepted. Only a batch that has used up all nonces
ends otherwise. -/
theorem runBatch_one_by_one (client : Client σ κ) (w : World σ κ) (t : Tracker) (options : Options)
    (calls : List κ) :
    let p := runBatch client w t .sequential options calls
    let o : Order κ := ⟨.sequential, options, calls, t, w.now, w.sentBy t.account⟩
    ∃ subs : List Submission, subs.length ≤ calls.length ∧
      p.1.sent = w.sent ++ Sent.series t.account t.cursor.next (calls.take subs.length) ∧
      World.Heeding client options w p.1 ∧
      (∀ (i : Nat) s, subs[i]? = some s → s.nonce = t.cursor.next + i ∧ ∃ call u,
        calls[i]? = some call ∧ o.Turn client w p.1 (subs.take i) s call u ∧
        (p.2.stage = .finished → p.2.outcomes[i]? =
          some (s.wait client.errors .finalized u.now options.timeout).1)) ∧
      (p.2.stage = .finished ∧ p.2.outcomes.length = subs.length ∧
          p.2.tracker.cursor.next = t.cursor.next + p.2.outcomes.length ∧
          p.1.now = o.waitsEnd client.errors subs ∧
          (subs.length < calls.length → p.1.aborted options = true ∨
            options.policy = .abortOnFirstFailure ∧ ∃ front last, p.2.outcomes = front ++ [last] ∧
              (∀ x ∈ front, x.isAccepted = true) ∧ last.isAccepted = false) ∨
        p.2.stage = .overflowed ∧ subs.length < calls.length ∧
          NonceCursor.last ≤ t.cursor.next + subs.length) := by
  intro p o
  obtain ⟨subs, ordered⟩ := exists_ordered_runBatch client w t options calls
  have inv := ordered.progress.paused.inv
  obtain ⟨-, -, grows⟩ := acts_runBatch client w t .sequential options calls
  refine ⟨subs, inv.issued_le, grows.sent_of_sentBy inv.sentBy,
    heeding_runBatch client w t .sequential options calls, ?_, ?_⟩
  · intro i s found
    -- a call is handed over in its turn, behind those that come before it
    obtain ⟨lt, rfl⟩ := List.getElem?_eq_some_iff.mp found
    have split : subs = subs.take i ++ subs[i] :: subs.drop (i + 1) := by
      rw [← List.drop_eq_getElem_cons lt, List.take_append_drop]
    obtain ⟨call, u, listed, turn⟩ := ordered.inTurn _ _ _ split
    rw [List.length_take_of_le lt.le] at listed
    refine ⟨?_, call, u, listed, turn, ?_⟩
    · have nonces := congrArg (·[i]?) inv.nonces
      simpa [lt] using nonces
    · intro finished
      rw [ordered.outcomes_eq finished, List.getElem?_map, Order.waits, Submission.getElem?_waits,
        found, turn.now]
      rfl
  -- the batch has come to its end or its nonces have run out
  · rcases stage_runBatch client w t .sequential options calls with finished | overflowed
    · left
      have outcomes := ordered.outcomes_eq finished
      have count : p.2.outcomes.length = subs.length := by
        rw [outcomes, List.length_map]
        exact Submission.length_waits ..
      refine ⟨finished, count, by rw [count]; exact inv.cursor, ?_,
        ordered.left_out finished⟩
      rw [inv.last_eq, count, List.take_length]
    · right
      have full := ordered.progress.full overflowed
      rw [inv.cursor] at full
      exact ⟨overflowed,
        inv.length_lt (todo_runBatch_of_overflowed client w t .sequential options calls overflowed),
        full⟩

end Runner

end ShellSale
