import ShellSale.Proofs.Batch.Reporting
import ShellSale.Proofs.Submission.Moments

/-!
## What has become of the calls before the next one

A sequential batch hands over a call at the end of its wait for the one before. A wait that has an
outcome leaves its call in a terminal status. A wait that gave up leaves it as it stands, and a
batch that collects all outcomes goes on all the same; one that stops on failures does not.

* `Submission.isTerminal_wait_iff`: what the end of a wait says of the call.
* `Runner.Order.Turn` is a call that is handed over in its turn. Every wait leaves a batch all of
  whose calls were (`Runner.Ordered.collect`).
* `Runner.runBatch_sequential` is the main result.
-/

namespace ShellSale

variable {σ κ : Type} {client : Client σ κ}

/-! ### Calls that have been waited for -/

namespace Submission

variable (table : ErrorTable) {s : Submission} {from_ timeout : Nat}

/-- **At the end of a wait** for finality, its call is in a terminal status exactly if the wait did
not give up. -/
theorem isTerminal_wait_iff (s : Submission) (from_ timeout : Nat) :
    (s.settle table (s.wait table .finalized from_ timeout).2).watch.status.isTerminal = true ↔
      (s.wait table .finalized from_ timeout).1 ≠ .timedOut := by
  constructor
  · intro terminal gaveUp
    obtain ⟨outcome, resolves, -⟩ := Status.resolve_of_isTerminal terminal .finalized .finalized
    have bounds := s.wait_bounds table .finalized from_ timeout
    have ends := s.ends_wait table .finalized from_ timeout
    generalize s.wait table .finalized from_ timeout = waited at gaveUp resolves bounds ends
    obtain ⟨o, at_⟩ := waited
    cases ends with
    | resolved least told =>
      rw [show o = .timedOut from gaveUp] at told
      exact Status.resolve_ne_timedOut _ _ told
    | gaveUp silent least =>
      have none : (s.watchAt table at_).status.resolve .finalized = none :=
        silent at_ bounds.1 bounds.2
      cases none.symm.trans resolves
  · intro told
    exact Status.isTerminal_of_resolve (resolve_of_wait table rfl told)

/-- From the end of a wait with an outcome on, the status of its call yields this outcome. -/
theorem resolve_settle_of_wait (fresh : s.watch = {})
    (told : (s.wait table .finalized from_ timeout).1 ≠ .timedOut) {now : Nat}
    (le : (s.wait table .finalized from_ timeout).2 ≤ now) :
    (s.settle table now).watch.status.resolve .finalized =
      some (s.wait table .finalized from_ timeout).1 := by
  have resolves : (s.settle table (s.wait table .finalized from_ timeout).2).watch.status.resolve
      .finalized = some (s.wait table .finalized from_ timeout).1 :=
    resolve_of_wait table rfl told
  rw [status_settle_of_isTerminal table (sound_of_fresh fresh) le
    (Status.isTerminal_of_resolve resolves), resolves]

end Submission

namespace Runner

variable {o : Order κ} {issued : List Submission} {last : Nat} {w₀ w w' : World σ κ} {r : Runner κ}

/-! ### Turns -/

/-- A call of a sequential batch that is handed over in its turn, in the world `u`: the batch has
waited for all that it handed over before, and stops on none of the outcomes. -/
structure Order.Turn (client : Client σ κ) (o : Order κ) (w₀ w' : World σ κ)
    (earlier : List Submission) (s : Submission) (call : κ) (u : World σ κ) : Prop where
  fresh : s.watch = {}
  before : World.Course client w₀ u
  after : World.Course client
    (u.handOver client o.tracker.account (o.tracker.cursor.next + earlier.length) call) w'
  feed : s.feed = (client.handOver u.node u.now o.tracker.account
    (o.tracker.cursor.next + earlier.length) call).1.feed
  sentBy : u.sentBy o.tracker.account = o.before ++ o.series earlier.length
  now : u.now = o.waitsEnd client.errors earlier
  calm : ∀ x ∈ (o.waits client.errors earlier).map (·.1), o.options.stopsOn x = false

/-- All calls that a batch has handed over were handed over in their turns. -/
def Order.InTurn (client : Client σ κ) (o : Order κ) (w₀ w : World σ κ)
    (issued : List Submission) : Prop :=
  ∀ earlier s later, issued = earlier ++ s :: later → ∃ call u,
    o.calls[earlier.length]? = some call ∧ o.Turn client w₀ w earlier s call u

theorem Order.InTurn.mono (h : o.InTurn client w₀ w issued) (course : World.Course client w w') :
    o.InTurn client w₀ w' issued := by
  intro earlier s later split
  obtain ⟨call, u, listed, turn⟩ := h earlier s later split
  exact ⟨call, u, listed, { turn with after := turn.after.trans course }⟩

/-- One more call in its turn. -/
theorem Order.InTurn.concat {s : Submission} {call : κ} {u : World σ κ}
    (h : o.InTurn client w₀ w issued) (listed : o.calls[issued.length]? = some call)
    (turn : o.Turn client w₀ w issued s call u) : o.InTurn client w₀ w (issued ++ [s]) := by
  intro earlier s' later split
  rcases List.eq_nil_or_concat' later with rfl | ⟨front, x, rfl⟩
  · obtain ⟨rfl, same⟩ := List.append_inj' split rfl
    obtain rfl := (List.cons.inj same).1
    exact ⟨call, u, listed, turn⟩
  · rw [← List.cons_append, ← List.append_assoc] at split
    exact h earlier s' front (List.append_inj' split rfl).1

/-- A sequential batch that stops on failures hands over nothing behind a call that was not
accepted. -/
theorem Order.InTurn.length_eq {i : Nat} {x : Outcome} (h : o.InTurn client w₀ w issued)
    (policy : o.options.policy = .abortOnFirstFailure)
    (found : ((o.waits client.errors issued).map (·.1))[i]? = some x)
    (rejected : x.isAccepted = false) : issued.length = i + 1 := by
  have within := (List.getElem?_eq_some_iff.mp found).1
  rw [List.length_map, Order.waits, Submission.length_waits] at within
  by_contra ne
  have more : i + 1 < issued.length := by omega
  -- the next call was handed over in its turn, when no earlier outcome had stopped the batch
  have split : issued = issued.take (i + 1) ++ issued[i + 1] :: issued.drop (i + 2) := by
    rw [← List.drop_eq_getElem_cons more, List.take_append_drop]
  obtain ⟨call, u, -, turn⟩ := h _ _ _ split
  have listed : ((o.waits client.errors (issued.take (i + 1))).map (·.1))[i]? = some x := by
    rw [split, Order.waits, Submission.waits_append, List.map_append,
      List.getElem?_append_left (by simp [Submission.length_waits]; omega)] at found
    exact found
  have accepted := turn.calm x (List.mem_of_getElem? listed)
  simp [Options.stopsOn, policy, rejected] at accepted

/-! ### One call at a time -/

/-- A sequential batch that waits for no call hands over the next one, if any, and no other. -/
theorem issue_sequential (client : Client σ κ) (w : World σ κ) {r : Runner κ} (calls : List κ)
    (mode : r.mode = .sequential) (idle : r.inFlight = []) :
    let p := issue client w r calls
    p.2.inFlight = [] ∨ p.2.stage = .finished ∧ ∃ call rest, calls = call :: rest ∧
      p.1 = w.handOver client r.tracker.account r.tracker.cursor.next call ∧
      p.2.inFlight = [r.tracker.next client w call] := by
  cases calls with
  | nil => exact Or.inl idle
  | cons call rest =>
    have free : ¬(r.mode = .sequential ∧ r.inFlight ≠ []) := fun busy => busy.2 idle
    rw [issue, if_neg free]
    by_cases raised : w.aborted r.options = true
    · rw [if_pos raised]
      exact Or.inl idle
    · rw [if_neg raised]
      by_cases below : r.tracker.cursor.next < NonceCursor.last
      · rw [Tracker.submit?_of_lt below]
        right
        -- the call is in flight now, so nothing more is handed over
        cases rest with
        | nil => exact ⟨rfl, call, [], rfl, rfl, by simp [issue, idle]⟩
        | cons next others =>
          dsimp only
          rw [issue, if_pos ⟨mode, by simp⟩]
          exact ⟨rfl, call, next :: others, rfl, rfl, by simp [idle]⟩
      · rw [Tracker.submit?_eq_none_iff.mpr (Nat.le_of_not_lt below)]
        exact Or.inl idle

/-- A sequential batch under way: it waits for the last call that it has handed over, and all of
them were handed over in their turns. -/
structure Ordered (client : Client σ κ) (o : Order κ) (w₀ : World σ κ) (issued : List Submission)
    (w : World σ κ) (r : Runner κ) : Prop where
  progress : Progress client o w₀ issued w.now w r
  inTurn : o.InTurn client w₀ w issued
  idle : r.inFlight = []

/-- **A call is handed over in its turn.** -/
theorem Going.ordered (h : Going client o w₀ issued w r) (mode : o.mode = .sequential)
    (inTurn : o.InTurn client w₀ w issued) (idle : r.inFlight = []) :
    ∃ issued', Ordered client o w₀ issued' (r.proceed client w).1 (r.proceed client w).2 := by
  have inv := h.inv
  -- all that was handed over has been waited for
  have count : r.outcomes.length = issued.length := by
    have flying := h.flying
    rw [idle] at flying
    exact Nat.le_antisymm inv.outcomes_le (List.drop_eq_nil_iff.mp flying.symm)
  have went := (steps_issue client w r r.todo).course
  obtain ⟨new, more, going⟩ := h.issue
  have progress := going.awaitNext (issue_ends client w r r.todo).2
  have flying := more.inFlight
  rw [idle, List.nil_append] at flying
  rcases issue_sequential client w r.todo (inv.mode.trans mode) idle with
    none | ⟨finished, call, rest, todo, handed, one⟩
  -- nothing was handed over, so no turn is added
  · obtain rfl : new = [] := flying.symm.trans none
    rw [List.append_nil] at progress
    refine ⟨issued, progress, inTurn.mono went, ?_⟩
    show (Runner.awaitNext client _ _).inFlight = []
    rw [awaitNext_of_nil none, none]
  · obtain rfl : new = [r.tracker.next client w call] := flying.symm.trans one
    -- one call was handed over, the next in the list
    have listed : o.calls[issued.length]? = some call := by
      rcases inv.todo with left | left
      · rw [left] at todo
        rw [← List.head?_drop, todo]
        rfl
      · rw [left] at todo
        cases todo
    have turn : o.Turn client w₀ (Runner.issue client w r r.todo).1 issued
        (r.tracker.next client w call) call w := {
      fresh := rfl
      before := h.course
      after := by
        rw [← inv.account, ← inv.cursor, handed]
      feed := by
        rw [← inv.account, ← inv.cursor]
        rfl
      sentBy := inv.sentBy
      now := by
        rw [inv.last_eq, count, List.take_length]
      calm := by
        have outcomes := inv.outcomes
        rw [count, List.take_length] at outcomes
        rw [← outcomes]
        exact h.calm }
    refine ⟨_, progress, (inTurn.mono went).concat listed turn, ?_⟩
    show (Runner.awaitNext client _ _).inFlight = []
    rw [awaitNext_of_cons finished one]

/-- **The end of a wait** leaves a sequential batch in order. -/
theorem Ordered.collect {nonce wake : Nat} {outcome : Outcome}
    (h : Ordered client o w₀ issued w r) (mode : o.mode = .sequential)
    (stage : r.stage = .waiting nonce outcome wake) :
    ∃ issued', Ordered client o w₀ issued'
      (r.collect client { w with now := max w.now wake } nonce outcome).1
      (r.collect client { w with now := max w.now wake } nonce outcome).2 := by
  obtain ⟨progress, late⟩ := h.progress.later stage
  have now : ({ w with now := max w.now wake } : World σ κ).now = wake := late
  have passed : World.Course client w { w with now := max w.now wake } := .single (.pass wake)
  generalize { w with now := max w.now wake } = v at progress now passed
  have inTurn := h.inTurn.mono passed
  have options := progress.paused.inv.options
  cases stops : o.options.stopsOn outcome with
  | true =>
    have went := (steps_collect client v r nonce outcome).course
    refine ⟨issued, progress.stop stage now stops, inTurn.mono went, ?_⟩
    rw [collect_eq, options, if_pos stops]
  | false =>
    have heard : World.Course client v (r.heard client v nonce outcome) :=
      (steps_heard client v r nonce outcome r.tracker.account).course
    rw [collect_eq, options, stops, if_neg Bool.false_ne_true]
    exact (progress.going stage now stops).ordered mode (inTurn.mono heard) h.idle

/-! ### Whole batches -/

/-- A sequential batch is in order when it has ended. -/
theorem exists_ordered_runBatch (client : Client σ κ) (w : World σ κ) (t : Tracker)
    (options : Options) (calls : List κ) :
    let p := runBatch client w t .sequential options calls
    ∃ issued, Ordered client ⟨.sequential, options, calls, t, w.now, w.sentBy t.account⟩ w issued
      p.1 p.2 := by
  let o : Order κ := ⟨.sequential, options, calls, t, w.now, w.sentBy t.account⟩
  refine run_keeps (P := fun w' r => ∃ issued, Ordered client o w issued w' r) ?_ ?_
  · rintro w' r nonce outcome wake ⟨issued, ordered⟩ stage
    exact ordered.collect rfl stage
  · refine (going_start client w t .sequential options calls .refl).ordered rfl ?_ rfl
    intro earlier s later split
    cases List.append_ne_nil_of_right_ne_nil earlier (List.cons_ne_nil s later) split.symm

/-- **What has become of the earlier calls when a sequential batch hands over the next one.** A call
is handed over at the end of the wait for the one before. The status of an earlier call is terminal,
with the outcome of its wait, unless that wait gave up; if the wait for the call right before gave
up, then that call is not over. So a batch that collects all outcomes may hand over a call while
earlier ones are not over, but a batch that stops on failures hands it over only when all of them
have been accepted in finalized blocks. -/
theorem runBatch_sequential (client : Client σ κ) (w : World σ κ) (t : Tracker) (options : Options)
    (calls : List κ) :
    let p := runBatch client w t .sequential options calls
    let o : Order κ := ⟨.sequential, options, calls, t, w.now, w.sentBy t.account⟩
    ∃ subs, subs.length ≤ calls.length ∧
      p.1.sentBy t.account = w.sentBy t.account ++ o.series subs.length ∧
      ∀ earlier s later, subs = earlier ++ s :: later → ∃ call u,
        calls[earlier.length]? = some call ∧ o.Turn client w p.1 earlier s call u ∧
        ∀ before e behind, earlier = before ++ e :: behind →
          let outcome := (e.wait client.errors .finalized (o.waitsEnd client.errors before)
            options.timeout).1
          let status := (e.settle client.errors u.now).watch.status
          (outcome ≠ .timedOut →
            status.isTerminal = true ∧ status.resolve .finalized = some outcome) ∧
          (behind = [] → (status.isTerminal = true ↔ outcome ≠ .timedOut)) ∧
          (options.policy = .abortOnFirstFailure → ∃ block, status = .finalized block none) := by
  intro p o
  obtain ⟨subs, progress, inTurn, -⟩ := exists_ordered_runBatch client w t options calls
  have inv := progress.paused.inv
  refine ⟨subs, inv.issued_le, inv.sentBy, ?_⟩
  intro earlier s later split
  obtain ⟨call, u, listed, turn⟩ := inTurn earlier s later split
  refine ⟨call, u, listed, turn, ?_⟩
  rintro before e behind rfl outcome status
  have fresh : e.watch = {} := inv.fresh e (by rw [split]; simp)
  let ended := (e.wait client.errors .finalized (o.waitsEnd client.errors before)
    options.timeout).2
  have now : u.now = Submission.waitsEnd client.errors .finalized options.timeout ended behind :=
    turn.now.trans (Submission.waitsEnd_append ..)
  have late : ended ≤ u.now := by
    rw [now]
    exact Submission.le_waitsEnd ..
  refine ⟨?_, ?_, ?_⟩
  -- a wait that did not time out left a final status, which lasts
  · intro told
    have resolves := Submission.resolve_settle_of_wait client.errors fresh told late
    exact ⟨Status.isTerminal_of_resolve resolves, resolves⟩
  -- the call before it has just been waited for
  · rintro rfl
    have here : u.now = ended := now
    show (e.settle client.errors u.now).watch.status.isTerminal = true ↔ _
    rw [here]
    exact Submission.isTerminal_wait_iff client.errors e _ _
  -- under a policy that stops, the batch goes on only behind accepted calls
  · intro policy
    have goesOn : options.stopsOn outcome = false := by
      refine turn.calm outcome ?_
      rw [Order.waits, Submission.waits_append, Submission.waits, List.map_append]
      exact List.mem_append_right _ List.mem_cons_self
    have accepted : outcome.isAccepted = true := by
      simpa [Options.stopsOn, policy] using goesOn
    exact Submission.finalized_of_wait client.errors (Submission.sound_of_fresh fresh) accepted late

/-- Two calls of which the first stays pending. The second is handed over all the same, when the
wait for the first has given up. -/
theorem runBatch_sequential_pending :
    let client : Client Unit Bool :=
      { nonce := fun _ _ _ => (.ok 0, ())
        handOver := fun _ now _ _ lands =>
          ({ feed := if lands then [(now, .event (.finalized (.ofNat 1) []))] else [] }, ())
        errors := fun _ _ => none }
    let w : World Unit Bool := { node := () }
    let t : Tracker := { account := .ofNat 1, cursor := ⟨0⟩ }
    let p := runBatch client w t .sequential { timeout := 10 } [false, true]
    ∃ (first : Submission) (u : World Unit Bool), first.feed = [] ∧ World.Course client w u ∧
      World.Course client (u.handOver client t.account 1 true) p.1 ∧ u.now = 10 ∧
      (first.settle client.errors u.now).watch.status.isTerminal = false := by
  intro client w t p
  obtain ⟨subs, le, sentBy, turns⟩ :=
    runBatch_sequential client w t { timeout := 10 } [false, true]
  -- both calls are handed over
  have handed : (p.1.sentBy t.account).length = 2 := by
    simp only [p, runBatch]
    rw [run_of_waiting rfl, run_of_waiting rfl, run_of_ended (fun _ _ _ stage => by cases stage)]
    decide +kernel
  have count : subs.length = 2 := by
    rw [sentBy, show w.sentBy t.account = [] from rfl, List.nil_append, Order.series,
      Sent.length_series, List.length_take_of_le le] at handed
    exact handed
  obtain ⟨first, second, rfl⟩ := List.length_eq_two.mp count
  obtain ⟨_, u₀, ⟨⟩, turn₀, -⟩ := turns [] first [second] rfl
  obtain ⟨_, u, ⟨⟩, turn, status⟩ := turns [first] second [] rfl
  obtain ⟨-, told, -⟩ := status [] first [] rfl
  -- the wait for the first has timed out when the second is handed over
  have gaveUp : first.wait client.errors .finalized 0 10 = (.timedOut, 10) := by
    rw [Submission.wait, turn₀.fresh, turn₀.feed]
    rfl
  have now : u.now = 10 := by
    rw [turn.now]
    exact congrArg Prod.snd gaveUp
  refine ⟨first, u, turn₀.feed, turn.before, turn.after, now, ?_⟩
  rw [← Bool.not_eq_true, told rfl, not_not]
  exact congrArg Prod.fst gaveUp

end Runner

end ShellSale
