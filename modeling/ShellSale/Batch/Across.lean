import ShellSale.Account.Map
import ShellSale.Batch.Runner

/-!
# Running one batch per signer concurrently

Every batch has a task and a tracker of its own. The tasks start in the order of the batches, each
going on until it has to wait; from then on the task whose wait ends first is resumed, of several
that end at the same moment the one whose batch comes first. A wait of no time at all is none: with
such waits each task ends before the next one starts. All tasks run to their ends before the
outcomes are gathered by account. A hard error of one task is reported only then.
-/

namespace ShellSale

variable {σ κ : Type}

/-- The calls that one account shall make, in order. -/
structure Batch (κ : Type) where
  account : AccountId
  calls : List κ

/-- What became of a signer's task. -/
inductive SignerTask.State (κ : Type) where
  | running (runner : Runner κ)
  | ended (result : Except PipelineError (List Outcome))

/-- The task that runs one signer's batch. -/
structure SignerTask (κ : Type) where
  account : AccountId
  /-- The number that tells tasks apart in messages. -/
  number : Nat
  state : SignerTask.State κ

namespace SignerTask

/-- Ends the task if its runner has ended: a finished batch closes its tracker, and one ended by an
overflow drops it without a word. -/
def conclude (w : World σ κ) (account : AccountId) (number : Nat) (r : Runner κ) :
    World σ κ × SignerTask κ :=
  match r.stage with
  | .waiting .. => (w, { account, number, state := .running r })
  | .finished =>
    let accepted := r.outcomes.countP (·.isAccepted)
    let w := w.notify (.batchDone r.tracker.account accepted r.outcomes.length)
    (r.tracker.close w, { account, number, state := .ended (.ok r.outcomes) })
  | .overflowed =>
    (r.tracker.release w,
      { account, number, state := .ended (.error (.signerTask account number .addition)) })

/-- Starts the task of a batch: opens a tracker and goes on to the first wait. -/
def launch (client : Client σ κ) (mode : Mode) (options : Options) (w : World σ κ) (number : Nat)
    (b : Batch κ) : World σ κ × SignerTask κ :=
  match Tracker.open_ client w b.account with
  | (.error e, w) => (w, { account := b.account, number, state := .ended (.error e) })
  | (.ok tracker, w) =>
    let (w, r) := Runner.start client w tracker mode options b.calls
    conclude w b.account number r

/-- When the present wait of a task ends. -/
def wake? (t : SignerTask κ) : Option Nat :=
  match t.state with
  | .running r =>
    match r.stage with
    | .waiting _ _ wake => some wake
    | _ => none
  | .ended _ => none

/-- How many outcomes a task may still collect. -/
def remaining (t : SignerTask κ) : Nat :=
  match t.state with
  | .running r => r.remaining
  | .ended _ => 0

/-- How many outcomes tasks may still collect. -/
def remainingOf : List (SignerTask κ) → Nat
  | [] => 0
  | t :: rest => t.remaining + remainingOf rest

/-- Resumes a task whose wait ends now; any other task stays as it is. -/
def resume (client : Client σ κ) (w : World σ κ) (t : SignerTask κ) : World σ κ × SignerTask κ :=
  match t.state with
  | .running r =>
    match r.stage with
    | .waiting nonce outcome _ =>
      let (w, r) := r.collect client w nonce outcome
      conclude w t.account t.number r
    | _ => (w, t)
  | .ended _ => (w, t)

/-- Resumes the first task whose wait ends at `wake`. -/
def resumeFirst (client : Client σ κ) (wake : Nat) :
    World σ κ → List (SignerTask κ) → World σ κ × List (SignerTask κ)
  | w, [] => (w, [])
  | w, t :: rest =>
    if t.wake? = some wake then
      let (w, t) := t.resume client w
      (w, t :: rest)
    else
      let (w, rest) := resumeFirst client wake w rest
      (w, t :: rest)

/-- The moment at which the next wait of any task ends. -/
def nextWake (tasks : List (SignerTask κ)) : Option Nat :=
  (tasks.filterMap wake?).min?

theorem conclude_remaining_le (w : World σ κ) (account : AccountId) (number : Nat) (r : Runner κ) :
    (conclude w account number r).2.remaining ≤ r.remaining := by
  unfold conclude
  split <;> simp [remaining]

theorem resume_remaining_lt (client : Client σ κ) (w : World σ κ) {t : SignerTask κ} {wake : Nat}
    (h : t.wake? = some wake) : (t.resume client w).2.remaining < t.remaining := by
  unfold wake? at h
  unfold resume
  split at h
  · rename_i r running
    split at h
    · rename_i nonce outcome at_ waiting
      have before : t.remaining = r.remaining := by simp [remaining, running]
      refine Nat.lt_of_le_of_lt (conclude_remaining_le ..) ?_
      rw [before]
      exact Runner.collect_remaining_lt client w r waiting
    · cases h
  · cases h

/-- Goes on with a task as long as its wait ends by now. -/
def pursue (client : Client σ κ) (w : World σ κ) (t : SignerTask κ) : World σ κ × SignerTask κ :=
  match _h : t.wake? with
  | none => (w, t)
  | some wake =>
    if wake ≤ w.now then
      let p := t.resume client w
      pursue client p.1 p.2
    else (w, t)
termination_by t.remaining
decreasing_by exact resume_remaining_lt client w _h

/-- Starts the task of a batch. A wait that is given no time ends at once, so it does not set the
task aside. -/
def spawn (client : Client σ κ) (mode : Mode) (options : Options) (w : World σ κ) (number : Nat)
    (b : Batch κ) : World σ κ × SignerTask κ :=
  let p := launch client mode options w number b
  if options.timeout = 0 then p.2.pursue client p.1 else p

/-- Starts the tasks of all batches, in order. -/
def launchAll (client : Client σ κ) (mode : Mode) (options : Options) :
    World σ κ → Nat → List (Batch κ) → World σ κ × List (SignerTask κ)
  | w, _, [] => (w, [])
  | w, number, b :: rest =>
    let (w, task) := spawn client mode options w number b
    let (w, tasks) := launchAll client mode options w (number + 1) rest
    (w, task :: tasks)

theorem resumeFirst_remaining_lt (client : Client σ κ) (wake : Nat) (w : World σ κ)
    (tasks : List (SignerTask κ)) (h : wake ∈ tasks.filterMap wake?) :
    remainingOf (resumeFirst client wake w tasks).2 < remainingOf tasks := by
  induction tasks generalizing w with
  | nil => simp at h
  | cons t rest ih =>
    unfold resumeFirst
    split
    · rename_i due
      have less := resume_remaining_lt client w due
      simp only [remainingOf]
      omega
    · rename_i other
      have mem : wake ∈ rest.filterMap wake? := by
        rw [List.filterMap_cons] at h
        split at h
        · exact h
        · rename_i at_ found
          rcases List.mem_cons.mp h with same | mem
          · exact absurd (same ▸ found) other
          · exact mem
      have less := ih w mem
      simp only [remainingOf]
      omega

/-- Takes all tasks to their ends. -/
def drive (client : Client σ κ) (w : World σ κ) (tasks : List (SignerTask κ)) :
    World σ κ × List (SignerTask κ) :=
  match _h : nextWake tasks with
  | none => (w, tasks)
  | some wake =>
    let p := resumeFirst client wake { w with now := max w.now wake } tasks
    drive client p.1 p.2
termination_by remainingOf tasks
decreasing_by exact resumeFirst_remaining_lt client wake _ tasks (List.min?_mem _h)

/-- The notice of a task that ended with a hard error. -/
def errorNotice (account : AccountId) : PipelineError → Notice
  | .signerTask _ number overflow => .batchUnfinished account number overflow
  | e => .batchFailed account e

/-- Gathers what the tasks gave, in the order of the batches: the outcomes by account, and the
first hard error. -/
def join : World σ κ → AccountMap (List Outcome) → Option PipelineError → List (SignerTask κ) →
    World σ κ × AccountMap (List Outcome) × Option PipelineError
  | w, results, first, [] => (w, results, first)
  | w, results, first, t :: rest =>
    match t.state with
    | .ended (.ok outcomes) => join w (results.insert t.account outcomes) first rest
    | .ended (.error e) =>
      join (w.notify (errorNotice t.account e)) results (first.or (some e)) rest
    | .running _ => join w results first rest

end SignerTask

/-- Runs every batch in a task of its own and gathers the outcomes by account. If any task had a
hard error, that of the earliest batch is the result, after all tasks have ended. -/
def runAcross (client : Client σ κ) (w : World σ κ) (batches : List (Batch κ)) (mode : Mode)
    (options : Options) : Except PipelineError (AccountMap (List Outcome)) × World σ κ :=
  let number := w.tasks + 1
  let w := { w with tasks := w.tasks + batches.length }
  let (w, tasks) := SignerTask.launchAll client mode options w number batches
  let (w, tasks) := SignerTask.drive client w tasks
  match SignerTask.join w [] none tasks with
  | (w, _, some e) => (.error e, w)
  | (w, results, none) => (.ok results, w)

end ShellSale
