import ShellSale.Proofs.Batch.Work
import ShellSale.Proofs.Submission.Moments

/-!
## What a pipelined batch collects

A pipelined batch hands over all its calls at once and then waits for one after the other, each wait
with a timeout of its own. If every call is settled within one timeout of the hand-over, then each
wait comes in time, and the outcomes depend on what is reported of each call only, neither on when
nor on the order in which the node deals with different calls.

* `Submission.wait_of_settlesBy`: a wait that starts before a call is settled, and is long enough,
  yields the outcome of its reports and ends by then.
* `Runner.outcomes_run_collecting`: a batch that has handed over all its calls reports the outcomes
  of waits for them, up to the one that it stops on.
* `Runner.outcomes_pipelined` is the main result.
-/

namespace ShellSale

variable {σ κ : Type}

/-! ### Calls that are settled in time -/

/-- Whether a report settles its call, rather than that it ends the watch without an outcome. -/
def Report.Settles (r : Report) : Prop :=
  ∃ e, r = .event e ∧ ∀ message, e ≠ .lost message

/-- A feed that settles its call by a moment: of the reports due by then that close the watch, the
first one settles the call. -/
def Feed.SettlesBy (feed : Feed) (deadline : Nat) : Prop :=
  ∃ r, ((feed.due deadline).map (·.2)).find? Report.isClosing = some r ∧ r.Settles

/-- What a call comes to, by all its reports. -/
def Status.settledBy (table : ErrorTable) (rs : List Report) : Outcome :=
  ((Status.ofReports table rs).resolve .finalized).getD .timedOut

theorem Status.isTerminal_closedBy (table : ErrorTable) (s : Status) {r : Report}
    (closing : r.isClosing = true) (settles : r.Settles) :
    (s.closedBy table r).isTerminal = true := by
  obtain ⟨e, rfl, kept⟩ := settles
  cases e with
  | inBlock block => cases closing
  | retracted => cases closing
  | finalized block events => rfl
  | invalid message => rfl
  | dropped message => rfl
  | lost message => exact absurd rfl (kept message)

/-- Reports whose first closing one settles the call make its status terminal. -/
theorem Status.isTerminal_ofReports (table : ErrorTable) {rs : List Report} {r : Report}
    (found : rs.find? Report.isClosing = some r) (settles : r.Settles) :
    (Status.ofReports table rs).isTerminal = true := by
  have closing : r.isClosing = true := List.find?_some found
  rw [Status.ofReports, found]
  exact Status.isTerminal_closedBy table _ closing settles

/-- The reports behind those that settle a call change nothing. -/
theorem Feed.SettlesBy.ofReports {feed : Feed} {deadline : Nat} (h : feed.SettlesBy deadline)
    (table : ErrorTable) :
    (Status.ofReports table (feed.map (·.2))).isTerminal = true ∧
      Status.ofReports table ((feed.due deadline).map (·.2)) =
        Status.ofReports table (feed.map (·.2)) := by
  obtain ⟨r, found, settles⟩ := h
  have terminal := Status.isTerminal_ofReports table found settles
  have whole : feed.map (·.2) =
      (feed.due deadline).map (·.2) ++ (feed.later deadline).map (·.2) := by
    rw [← List.map_append]
    exact congrArg _ List.takeWhile_append_dropWhile.symm
  have same : Status.ofReports table ((feed.due deadline).map (·.2)) =
      Status.ofReports table (feed.map (·.2)) := by
    rw [← Watch.status_after_eq] at terminal
    have sound := Watch.sound_new.after table ((feed.due deadline).map (·.2))
    rw [← Watch.status_after_eq, ← Watch.status_after_eq, whole, Watch.after_append,
      sound.after_of_isTerminal table terminal]
  rw [← same]
  exact ⟨terminal, rfl⟩

theorem Feed.SettlesBy.resolve {feed : Feed} {deadline : Nat} (h : feed.SettlesBy deadline)
    (table : ErrorTable) : (Status.ofReports table (feed.map (·.2))).resolve .finalized =
      some (Status.settledBy table (feed.map (·.2))) := by
  obtain ⟨terminal, -⟩ := h.ofReports table
  obtain ⟨o, resolves, -⟩ := Status.resolve_of_isTerminal terminal .finalized .finalized
  rw [Status.settledBy, resolves, Option.getD_some]

theorem Feed.SettlesBy.ne_timedOut {feed : Feed} {deadline : Nat} (h : feed.SettlesBy deadline)
    (table : ErrorTable) : Status.settledBy table (feed.map (·.2)) ≠ .timedOut := by
  intro timedOut
  have resolves := h.resolve table
  rw [timedOut] at resolves
  exact Status.resolve_ne_timedOut _ _ resolves

namespace Submission

variable (table : ErrorTable) {s : Submission} {deadline : Nat}

theorem status_watchAt (fresh : s.watch = {}) (m : Nat) :
    (s.watchAt table m).status = Status.ofReports table ((s.feed.due m).map (·.2)) := by
  rw [← Watch.status_after_eq, ← fresh]
  rfl

/-- **A wait for a call that is settled in time** yields what the reports say, and ends by then. -/
theorem wait_of_settlesBy (fresh : s.watch = {}) (h : s.feed.SettlesBy deadline) {now timeout : Nat}
    (early : now ≤ deadline) (long : deadline ≤ now + timeout) :
    (s.wait table .finalized now timeout).1 = Status.settledBy table (s.feed.map (·.2)) ∧
      (s.wait table .finalized now timeout).2 ≤ deadline := by
  have resolves : (s.watchAt table deadline).status.resolve .finalized =
      some (Status.settledBy table (s.feed.map (·.2))) := by
    rw [status_watchAt table fresh, (h.ofReports table).2, h.resolve table]
  have ends := s.ends_wait table .finalized now timeout
  generalize s.wait table .finalized now timeout = waited at ends
  obtain ⟨outcome, at_⟩ := waited
  cases ends with
  | resolved least told =>
    have by_ : at_ ≤ deadline := least.2 ⟨early, long, by rw [resolves]; simp⟩
    -- the status at the end of the wait is terminal, so it is the one at the deadline
    have same : (s.watchAt table deadline).status = (s.watchAt table at_).status :=
      status_settle_of_isTerminal table (sound_of_fresh fresh) by_
        (Status.isTerminal_of_resolve told)
    rw [← same, resolves] at told
    exact ⟨(Option.some.inj told).symm, by_⟩
  | gaveUp silent least =>
    rw [silent deadline early long] at resolves
    cases resolves

/-- Waits one after the other for calls that are all settled within one timeout of the start yield
what the reports of each say. -/
theorem waits_of_settlesBy {start timeout : Nat} {now : Nat} {subs : List Submission}
    (fresh : ∀ s ∈ subs, s.watch = {})
    (settled : ∀ s ∈ subs, s.feed.SettlesBy (start + timeout)) (from_ : start ≤ now)
    (early : now ≤ start + timeout) :
    (waits table .finalized timeout now subs).map (·.1) =
      subs.map fun s => Status.settledBy table (s.feed.map (·.2)) := by
  induction subs generalizing now with
  | nil => rfl
  | cons s rest ih =>
    rw [List.forall_mem_cons] at fresh settled
    obtain ⟨outcome, by_⟩ := wait_of_settlesBy table fresh.1 settled.1 early
      (Nat.add_le_add_right from_ timeout)
    have later := (s.wait_bounds table .finalized now timeout).1
    rw [waits, List.map_cons, List.map_cons, outcome,
      ih fresh.2 settled.2 (from_.trans later) by_]

end Submission

/-! ### Collecting -/

/-- The outcomes that a batch reports of those of all its calls: it stops behind the first one that
was not accepted, if it is told to. -/
def Policy.reported (p : Policy) (outcomes : List Outcome) : List Outcome :=
  match p with
  | .collectAll => outcomes
  | .abortOnFirstFailure =>
    outcomes.takeWhile (·.isAccepted) ++ (outcomes.dropWhile (·.isAccepted)).take 1

theorem Policy.reported_cons (o : Options) (outcome : Outcome) (rest : List Outcome) :
    o.policy.reported (outcome :: rest) =
      outcome :: if o.stopsOn outcome then [] else o.policy.reported rest := by
  unfold Policy.reported Options.stopsOn
  cases o.policy with
  | collectAll => rfl
  | abortOnFirstFailure =>
    cases accepted : outcome.isAccepted with
    | true => simp [accepted]
    | false => simp [accepted]

theorem Policy.mem_of_mem_reported {p : Policy} {o : Outcome} {outcomes : List Outcome}
    (h : o ∈ p.reported outcomes) : o ∈ outcomes := by
  cases p with
  | collectAll => exact h
  | abortOnFirstFailure =>
    rcases List.mem_append.mp h with mem | mem
    · exact (List.takeWhile_prefix _).subset mem
    · exact (List.dropWhile_suffix _).subset (List.mem_of_mem_take mem)

/-- The feeds that a node gives calls of an account that are handed over at once, under consecutive
nonces. -/
def Client.feeds (client : Client σ κ) (now : Nat) (a : AccountId) : σ → Nat → List κ → List Feed
  | _, _, [] => []
  | node, nonce, call :: rest =>
    let (taken, node) := client.handOver node now a nonce call
    taken.feed :: client.feeds now a node (nonce + 1) rest

namespace Runner

/-- A runner with nothing left to hand over only goes on to the next wait. -/
theorem proceed_of_todo_nil (client : Client σ κ) (w : World σ κ) {r : Runner κ}
    (todo : r.todo = []) (stage : r.stage = .finished) :
    r.proceed client w = (w, r.awaitNext client w) := by
  have same : { r with todo := [], stage := .finished } = r := by
    rw [← todo, ← stage]
  rw [proceed, todo, issue, same]

/-- The outcomes of waits for the calls in flight, one after the other. -/
def pending (client : Client σ κ) (r : Runner κ) (now : Nat) : List Outcome :=
  (Submission.waits client.errors (r.options.levelOf r.mode) r.options.timeout now
    r.inFlight).map (·.1)

/-- A batch that has handed over all its calls and waits for one of them reports the
outcome of this wait and those of waits for the calls still in flight, one after the other, up to
the one that it stops on. -/
theorem outcomes_run_waiting (client : Client σ κ) {w : World σ κ} {r : Runner κ}
    (todo : r.todo = []) {nonce wake : Nat} {outcome : Outcome}
    (stage : r.stage = .waiting nonce outcome wake) (late : w.now ≤ wake) :
    (run client w r).2.stage = .finished ∧
      (run client w r).2.outcomes =
        r.outcomes ++ r.options.policy.reported (outcome :: r.pending client wake) := by
  induction w, r using run.induct client generalizing nonce outcome wake with
  | case2 w r ended => exact absurd stage (ended _ _ _)
  | case1 w r nonce' outcome' wake' stage' p =>
    rename_i ih
    obtain ⟨rfl, rfl, rfl⟩ : nonce = nonce' ∧ outcome = outcome' ∧ wake = wake' := by
      rw [stage'] at stage
      injection stage with same same' same''
      exact ⟨same.symm, same'.symm, same''.symm⟩
    let now : World σ κ := { w with now := max w.now wake }
    have at_ : now.now = wake := max_eq_right late
    rw [run_of_waiting stage, Policy.reported_cons]
    change (run client p.1 p.2).2.stage = .finished ∧ (run client p.1 p.2).2.outcomes = _
    by_cases stops : r.options.stopsOn outcome
    · -- the batch stops on this outcome
      have stopped : p = _ := (collect_eq client now r nonce outcome).trans (if_pos stops)
      rw [stopped, run_of_ended (by simp [withOutcome]), if_pos stops]
      exact ⟨rfl, rfl⟩
    -- the batch goes on: the outcome is noted, and the next call in flight is waited for
    · let told := r.heard client now nonce outcome
      let r' := r.withOutcome client now outcome
      have goesOn : p = (told, r'.awaitNext client told) :=
        (collect_eq client now r nonce outcome).trans
          ((if_neg stops).trans (proceed_of_todo_nil client told todo rfl))
      have told_now : told.now = wake := (now_heard client now r nonce outcome).trans at_
      rw [if_neg stops]
      cases flying : r.inFlight with
      | nil =>
        have ended : r'.awaitNext client told = r' := awaitNext_of_nil flying
        have none : r.options.policy.reported (r.pending client wake) = [] := by
          rw [pending, flying]
          cases r.options.policy <;> rfl
        rw [goesOn, ended, run_of_ended (by simp [r', withOutcome]), none]
        exact ⟨rfl, rfl⟩
      | cons s rest =>
        have waiting : r'.awaitNext client told = _ := awaitNext_of_cons rfl flying
        have pending_eq : r.pending client wake =
            (s.wait client.errors (r.options.levelOf r.mode) wake r.options.timeout).1 ::
              { r' with inFlight := rest }.pending client
                (s.wait client.errors (r.options.levelOf r.mode) wake r.options.timeout).2 := by
          rw [pending, flying]
          rfl
        have bounds := s.wait_bounds client.errors (r.options.levelOf r.mode) wake r.options.timeout
        rw [told_now] at waiting
        rw [goesOn, waiting] at ih ⊢
        obtain ⟨finished, outcomes⟩ := ih todo rfl (told_now.trans_le bounds.1)
        refine ⟨finished, ?_⟩
        rw [outcomes, pending_eq]
        exact List.append_assoc ..

/-- **Collecting.** A batch that has handed over all its calls reports the outcomes of waits for
them, one after the other, up to the one that it stops on. -/
theorem outcomes_run_awaitNext (client : Client σ κ) {w : World σ κ} {r : Runner κ}
    (todo : r.todo = []) (stage : r.stage = .finished) :
    (run client w (r.awaitNext client w)).2.stage = .finished ∧
      (run client w (r.awaitNext client w)).2.outcomes =
        r.outcomes ++ r.options.policy.reported (r.pending client w.now) := by
  cases flying : r.inFlight with
  | nil =>
    have none : r.options.policy.reported (r.pending client w.now) = [] := by
      rw [pending, flying]
      cases r.options.policy <;> rfl
    rw [awaitNext_of_nil flying, run_of_ended (by rw [stage]; simp), none, List.append_nil]
    exact ⟨stage, rfl⟩
  | cons s rest =>
    have bounds := s.wait_bounds client.errors (r.options.levelOf r.mode) w.now r.options.timeout
    rw [awaitNext_of_cons stage flying, pending, flying]
    refine outcomes_run_waiting client ?_ rfl bounds.1
    exact todo

/-! ### Handing over -/

/-- A pipelined batch that nobody aborts hands over all its calls, if there are nonces for all. -/
theorem issue_pipelined (client : Client σ κ) (w : World σ κ) (r : Runner κ) (calls : List κ)
    (mode : r.mode = .pipelined) (abort : r.options.abort = none) :
    let issued := (issue client w r calls).2
    (calls.length ≤ NonceCursor.last - r.tracker.cursor.next →
      issued.stage = .finished ∧ issued.todo = [] ∧
        issued.inFlight.map (·.feed) = r.inFlight.map (·.feed) ++
          client.feeds w.now r.tracker.account w.node r.tracker.cursor.next calls) ∧
    (NonceCursor.last - r.tracker.cursor.next < calls.length → issued.stage = .overflowed) := by
  induction calls generalizing w r with
  | nil => exact ⟨fun _ => ⟨rfl, rfl, (List.append_nil _).symm⟩, fun full => by simp at full⟩
  | cons call rest ih =>
    have free : ¬(r.mode = .sequential ∧ r.inFlight ≠ []) := by
      rw [mode]
      rintro ⟨sequential, -⟩
      cases sequential
    have quiet : ¬(w.aborted r.options = true) := by
      rw [World.aborted, abort]
      simp
    rw [issue, if_neg free, if_neg quiet, List.length_cons]
    -- the call goes over if there is a nonce for it, and the rest behind it
    by_cases below : r.tracker.cursor.next < NonceCursor.last
    · rw [Tracker.submit?_of_lt below]
      obtain ⟨all, full⟩ := ih (w.handOver client r.tracker.account _ call)
        { r with
          tracker := { r.tracker with
            cursor := ⟨r.tracker.cursor.next + 1⟩
            submissions := r.tracker.submissions ++ [r.tracker.next client w call] }
          inFlight := r.inFlight ++ [r.tracker.next client w call] } mode abort
      refine ⟨fun room => ?_, fun few => full (by dsimp only; omega)⟩
      obtain ⟨finished, done, feeds⟩ := all (by dsimp only; omega)
      refine ⟨finished, done, feeds.trans ?_⟩
      rw [List.map_append, List.append_assoc]
      rfl
    · have full := Nat.le_of_not_lt below
      rw [Tracker.submit?_eq_none_iff.mpr full]
      exact ⟨fun room => by omega, fun _ => rfl⟩

/-! ### Whole batches -/

/-- **A pipelined batch whose calls are all settled in time.** At the finalized level and without an
abort signal it reports what the reports of each call come to, up to the outcome that it stops on;
without a nonce for each of its calls it ends in the overflow. -/
theorem runBatch_pipelined (client : Client σ κ) (w : World σ κ) (t : Tracker) (options : Options)
    (calls : List κ) (level : options.level = .finalized) (abort : options.abort = none)
    (timely : ∀ feed ∈ client.feeds w.now t.account w.node t.cursor.next calls,
      feed.SettlesBy (w.now + options.timeout)) :
    let r := (runBatch client w t .pipelined options calls).2
    (calls.length ≤ NonceCursor.last - t.cursor.next → r.stage = .finished ∧
      r.outcomes = options.policy.reported
        ((client.feeds w.now t.account w.node t.cursor.next calls).map fun feed =>
          Status.settledBy client.errors (feed.map (·.2)))) ∧
    (NonceCursor.last - t.cursor.next < calls.length → r.stage = .overflowed) := by
  let r₀ : Runner κ :=
    { tracker := t, mode := .pipelined, options, total := calls.length, todo := calls }
  obtain ⟨new, more⟩ := exists_issued client w r₀ calls
  obtain ⟨all, full⟩ := issue_pipelined client w r₀ calls rfl abort
  generalize issued : issue client w r₀ calls = p at more all full
  obtain ⟨w', r⟩ := p
  have started : runBatch client w t .pipelined options calls =
      run client w' (r.awaitNext client w') := by
    have proceeded : r₀.proceed client w = (w', r.awaitNext client w') := by
      rw [proceed, show r₀.todo = calls from rfl, issued]
    rw [runBatch, start, proceeded]
  rw [started]
  constructor
  · intro room
    obtain ⟨finished, done, feeds⟩ := all room
    obtain ⟨ended, outcomes⟩ := outcomes_run_awaitNext client (w := w') done finished
    refine ⟨ended, ?_⟩
    -- the calls in flight are those handed over, and each is settled by the deadline
    have flying : r.inFlight = new := more.inFlight
    have fed : new.map (·.feed) = client.feeds w.now t.account w.node t.cursor.next calls := by
      rw [← flying]
      exact feeds
    have settled : ∀ s ∈ new, s.feed.SettlesBy (w.now + options.timeout) := by
      intro s mem
      exact timely _ (fed ▸ List.mem_map_of_mem mem)
    have collected : r.pending client w'.now =
        new.map fun s => Status.settledBy client.errors (s.feed.map (·.2)) := by
      rw [pending, more.mode, more.options, flying, more.now]
      have finalized : options.levelOf .pipelined = .finalized := level
      dsimp only [r₀]
      rw [finalized]
      exact Submission.waits_of_settlesBy client.errors more.fresh settled (Nat.le_refl _)
        (Nat.le_add_right ..)
    rw [outcomes, more.outcomes, more.options, collected, ← fed, List.map_map]
    rfl
  · intro few
    have overflowed : r.stage = .overflowed := full few
    have still : r.awaitNext client w' = r := by
      unfold awaitNext
      rw [overflowed]
    rw [still, run_of_ended (by rw [overflowed]; simp)]
    exact overflowed

/-- **Neither order nor moments count.** Two nodes that report the same of each call of a pipelined
batch, at whatever moments and in whatever order of the calls, but so that every call is settled in
time, lead to the same outcomes: what the reports of each call come to, in the order of the calls,
up to the outcome that the batch stops on, and never a timeout. -/
theorem outcomes_pipelined {σ' : Type} (client : Client σ κ) (client' : Client σ' κ)
    (errors : client'.errors = client.errors) (w : World σ κ) (w' : World σ' κ) (t t' : Tracker)
    (cursor : t'.cursor = t.cursor) (options : Options) (calls : List κ)
    (level : options.level = .finalized) (abort : options.abort = none) :
    let feeds := client.feeds w.now t.account w.node t.cursor.next calls
    let feeds' := client'.feeds w'.now t'.account w'.node t'.cursor.next calls
    let r := (runBatch client w t .pipelined options calls).2
    let r' := (runBatch client' w' t' .pipelined options calls).2
    (feeds'.map fun feed => feed.map (·.2)) = (feeds.map fun feed => feed.map (·.2)) →
      (∀ feed ∈ feeds, feed.SettlesBy (w.now + options.timeout)) →
      (∀ feed ∈ feeds', feed.SettlesBy (w'.now + options.timeout)) →
      (calls.length ≤ NonceCursor.last - t.cursor.next →
        r.stage = .finished ∧ r'.stage = .finished ∧ r'.outcomes = r.outcomes ∧
          r.outcomes = options.policy.reported
            (feeds.map fun feed => Status.settledBy client.errors (feed.map (·.2))) ∧
          .timedOut ∉ r.outcomes) ∧
      (NonceCursor.last - t.cursor.next < calls.length →
        r.stage = .overflowed ∧ r'.stage = .overflowed) := by
  intro feeds feeds' r r' same timely timely'
  obtain ⟨all, full⟩ := runBatch_pipelined client w t options calls level abort timely
  obtain ⟨all', full'⟩ := runBatch_pipelined client' w' t' options calls level abort timely'
  rw [cursor] at all' full'
  refine ⟨fun room => ?_, fun few => ⟨full few, full' few⟩⟩
  -- the outcomes come from the reports alone, which are the same
  obtain ⟨finished, outcomes⟩ := all room
  obtain ⟨finished', outcomes'⟩ := all' room
  have alike : (feeds'.map fun feed => Status.settledBy client'.errors (feed.map (·.2))) =
      feeds.map fun feed => Status.settledBy client.errors (feed.map (·.2)) := by
    have settled := congrArg (List.map (Status.settledBy client.errors)) same
    rw [List.map_map, List.map_map] at settled
    rw [errors]
    exact settled
  refine ⟨finished, finished', ?_, outcomes, ?_⟩
  · rw [← cursor] at outcomes'
    exact (outcomes'.trans (congrArg _ alike)).trans outcomes.symm
  · intro mem
    rw [show r.outcomes = _ from outcomes] at mem
    obtain ⟨feed, given, timedOut⟩ := List.mem_map.mp (Policy.mem_of_mem_reported mem)
    exact (timely feed given).ne_timedOut client.errors timedOut

/-- Two nodes that settle three calls in opposite orders, the second call as invalid, of which a
batch that stops reports the same two outcomes. -/
theorem outcomes_pipelined_reversed :
    let block := BlockHash.ofNat 1
    let node (delay : Nat → Nat) : Client Unit Unit :=
      { nonce := fun _ _ _ => (.ok 0, ())
        handOver := fun _ now _ nonce _ =>
          let settled : StatusEvent :=
            if nonce = 1 then .invalid "stale" else .finalized block []
          ({ feed := [(now + delay nonce, .event settled)] }, ())
        errors := fun _ _ => none }
    let w : World Unit Unit := { node := () }
    let t : Tracker := { account := .ofNat 1, cursor := ⟨0⟩ }
    let options : Options := { timeout := 100, policy := .abortOnFirstFailure }
    let early := (runBatch (node fun n => 10 * n) w t .pipelined options [(), (), ()]).2
    let late := (runBatch (node fun n => 100 - 50 * n) w t .pipelined options [(), (), ()]).2
    late.outcomes = early.outcomes ∧
      early.outcomes = [.accepted block, .invalid "stale"] := by
  intro block node w t options early late
  have settles (at_ : Nat) (by_ : at_ ≤ 100) (e : StatusEvent)
      (closing : Report.isClosing (.event e) = true) (kept : ∀ message, e ≠ .lost message) :
      Feed.SettlesBy [(at_, .event e)] 100 := by
    refine ⟨.event e, ?_, e, rfl, kept⟩
    rw [Feed.due_cons_of_le by_, List.map_cons, List.find?_cons_of_pos closing]
  have timely (delay : Nat → Nat) (short : delay 0 ≤ 100 ∧ delay 1 ≤ 100 ∧ delay 2 ≤ 100) :
      ∀ feed ∈ (node delay).feeds 0 t.account () 0 [(), (), ()], feed.SettlesBy 100 := by
    intro feed given
    simp only [Client.feeds, node, Nat.zero_add, List.mem_cons, List.not_mem_nil, or_false] at given
    rcases given with rfl | rfl | rfl
    · exact settles _ short.1 _ rfl (by simp)
    · exact settles _ short.2.1 _ rfl (by simp)
    · exact settles _ short.2.2 _ rfl (by simp)
  obtain ⟨all, -⟩ := outcomes_pipelined (node fun n => 10 * n) (node fun n => 100 - 50 * n) rfl w w
    t t rfl options [(), (), ()] rfl rfl rfl (timely _ (by decide)) (timely _ (by decide))
  obtain ⟨-, -, same, outcomes, -⟩ := all (by decide)
  exact ⟨same, outcomes⟩

end Runner

end ShellSale
