import ShellSale.Batch.Options
import ShellSale.Pipeline.Tracker

/-!
# Running the batch of one signer

A runner takes a batch from wait to wait. Between two waits it submits what its mode allows: a
sequential batch one call, and only while no earlier call is waited for, a pipelined batch all its
calls. Then it waits for the oldest call whose outcome is still to be collected. Before every
submission it looks at the abort signal.

A wait has an outcome and a moment at which it ends as soon as it starts, as the feed of a call is
known from its hand-over; the runner is resumed at that moment. Every resumption collects one
outcome, so `Runner.remaining` bounds their number.
-/

namespace ShellSale

variable {σ κ : Type}

/-- What a runner is doing. -/
inductive Runner.Stage where
  /-- It waits for the call with a nonce; the wait ends at `wake`. -/
  | waiting (nonce : Nat) (outcome : Outcome) (wake : Nat)
  /-- It is done. -/
  | finished
  /-- A nonce did not fit its width. -/
  | overflowed
deriving DecidableEq

/-- A batch under way. -/
structure Runner (κ : Type) where
  tracker : Tracker
  mode : Mode
  options : Options
  /-- How many calls the batch has. -/
  total : Nat
  /-- The calls not yet submitted. -/
  todo : List κ
  /-- The submissions whose outcomes are still to be collected, oldest first. -/
  inFlight : List Submission := []
  /-- The outcomes collected so far. -/
  outcomes : List Outcome := []
  stage : Runner.Stage := .finished

namespace Runner

/-- Submits calls as far as the mode and the abort signal allow. -/
def issue (client : Client σ κ) : World σ κ → Runner κ → List κ → World σ κ × Runner κ
  | w, r, [] => (w, { r with todo := [], stage := .finished })
  | w, r, call :: rest =>
    if r.mode = .sequential ∧ r.inFlight ≠ [] then
      (w, { r with todo := call :: rest, stage := .finished })
    else if w.aborted r.options then
      (w.notify (.abortedBatch r.tracker.account (rest.length + 1) r.total),
        { r with todo := [], stage := .finished })
    else
      match r.tracker.submit? client w call with
      | none => (w, { r with todo := call :: rest, stage := .overflowed })
      | some (w, tracker, submission) =>
        issue client w { r with tracker, inFlight := r.inFlight ++ [submission] } rest

/-- Starts to wait for the oldest call in flight, if nothing keeps the runner from it. -/
def awaitNext (client : Client σ κ) (w : World σ κ) (r : Runner κ) : Runner κ :=
  match r.stage, r.inFlight with
  | .finished, submission :: rest =>
    let (outcome, wake) :=
      submission.wait client.errors (r.options.levelOf r.mode) w.now r.options.timeout
    { r with inFlight := rest, stage := .waiting submission.nonce outcome wake }
  | _, _ => r

/-- Submits what may be submitted and goes on to the next wait. -/
def proceed (client : Client σ κ) (w : World σ κ) (r : Runner κ) : World σ κ × Runner κ :=
  let (w, r) := r.issue client w r.todo
  (w, r.awaitNext client w)

/-- A runner for a batch, taken to its first wait. -/
def start (client : Client σ κ) (w : World σ κ) (tracker : Tracker) (mode : Mode)
    (options : Options) (calls : List κ) : World σ κ × Runner κ :=
  proceed client w { tracker, mode, options, total := calls.length, todo := calls }

/-- The notice of a batch that stops at a call. -/
def stopNotice (mode : Mode) (account : AccountId) (nonce : Nat) : Notice :=
  match mode with
  | .sequential => .stoppedBatch account nonce
  | .pipelined => .stoppedCollecting account nonce

/-- Tells the log what the feeds of the tracker have delivered by now. -/
def catchUp (client : Client σ κ) (w : World σ κ) (r : Runner κ) : World σ κ × Runner κ :=
  (w.notifyAt (r.tracker.notices client.errors w.now),
    { r with tracker := r.tracker.settle client.errors w.now })

/-- Collects the outcome of the wait that ends now, and stops or goes on. -/
def collect (client : Client σ κ) (w : World σ κ) (r : Runner κ) (nonce : Nat)
    (outcome : Outcome) : World σ κ × Runner κ :=
  let (w, r) := r.catchUp client w
  let account := r.tracker.account
  let w := if outcome = .timedOut then w.notify (.gaveUp account nonce r.options.timeout) else w
  let r := { r with outcomes := r.outcomes ++ [outcome], stage := .finished }
  if r.options.stopsOn outcome then
    (w.notify (stopNotice r.mode account nonce), { r with todo := [], inFlight := [] })
  else r.proceed client w

/-- How many outcomes a runner may still collect. -/
def remaining (r : Runner κ) : Nat :=
  r.todo.length + r.inFlight.length +
    match r.stage with
    | .waiting .. => 1
    | _ => 0

theorem issue_remaining_le (client : Client σ κ) (w : World σ κ) (r : Runner κ) (calls : List κ) :
    (issue client w r calls).2.remaining ≤ calls.length + r.inFlight.length := by
  induction calls generalizing w r with
  | nil => simp [issue, remaining]
  | cons call rest ih =>
    unfold issue
    split
    · simp [remaining]
    · split
      · simp [remaining]
      · split
        · simp [remaining]
        · refine Nat.le_trans (ih _ _) ?_
          simp only [List.length_append, List.length_cons, List.length_nil]
          omega

theorem awaitNext_remaining (client : Client σ κ) (w : World σ κ) (r : Runner κ) :
    (r.awaitNext client w).remaining = r.remaining := by
  unfold awaitNext
  split
  · rename_i stage inFlight
    simp only [remaining, stage, inFlight, List.length_cons]
    omega
  · rfl

theorem proceed_remaining_le (client : Client σ κ) (w : World σ κ) (r : Runner κ) :
    (r.proceed client w).2.remaining ≤ r.todo.length + r.inFlight.length := by
  simp only [proceed, awaitNext_remaining]
  exact issue_remaining_le client w r r.todo

/-- Every resumption leaves fewer outcomes to collect. -/
theorem collect_remaining_lt (client : Client σ κ) (w : World σ κ) (r : Runner κ) {nonce : Nat}
    {outcome : Outcome} {wake : Nat} (h : r.stage = .waiting nonce outcome wake) :
    (r.collect client w nonce outcome).2.remaining < r.remaining := by
  have before : r.remaining = r.todo.length + r.inFlight.length + 1 := by
    simp [remaining, h]
  unfold collect
  simp only [catchUp]
  by_cases stops : r.options.stopsOn outcome
  · rw [before]
    simp only [stops, ↓reduceIte, remaining, List.length_nil]
    omega
  · simp only [stops, ↓reduceIte, Bool.false_eq_true]
    refine Nat.lt_of_le_of_lt (proceed_remaining_le ..) ?_
    simp only [before]
    omega

/-- Takes a runner from wait to wait to its end. -/
def run (client : Client σ κ) (w : World σ κ) (r : Runner κ) : World σ κ × Runner κ :=
  match _h : r.stage with
  | .waiting nonce outcome wake =>
    let p := r.collect client { w with now := max w.now wake } nonce outcome
    run client p.1 p.2
  | _ => (w, r)
termination_by r.remaining
decreasing_by exact collect_remaining_lt client _ r _h

end Runner

/-- Runs a batch on an open tracker from start to end. -/
def runBatch (client : Client σ κ) (w : World σ κ) (tracker : Tracker) (mode : Mode)
    (options : Options) (calls : List κ) : World σ κ × Runner κ :=
  let (w, r) := Runner.start client w tracker mode options calls
  r.run client w

end ShellSale
