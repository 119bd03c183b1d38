import ShellSale.Nonce.Cursor
import ShellSale.Pipeline.World
import ShellSale.Submission.Wait

/-!
# Trackers

A tracker issues the nonces of one account and watches the calls submitted under them. Only one
tracker per account can be open: `Tracker.open` claims the account in the registry before it reads
the nonce, and every way a tracker ends gives the account back.
-/

namespace ShellSale

/-- A call in flight. -/
structure Submission where
  account : AccountId
  nonce : Nat
  /-- Tells which of two calls was handed over first. -/
  serial : Nat
  watch : Watch := {}
  /-- The reports still to come. -/
  feed : Feed := []
  /-- Whether the feed has ended. -/
  ended : Bool := false

namespace Submission

/-- Takes the reports due by `now`. -/
def settle (table : ErrorTable) (now : Nat) (s : Submission) : Submission :=
  let reports := (s.feed.due now).map (·.2)
  { s with
    watch := s.watch.after table reports
    feed := s.feed.later now
    ended := s.ended || reports.contains .finished }

/-- What the reports due by `now` tell the log. -/
def notices (table : ErrorTable) (now : Nat) (s : Submission) : List (Nat × Notice) :=
  s.watch.notices table s.account s.nonce (s.feed.due now)

/-- The outcome of a wait from `now` on, and when it ends. -/
def wait (table : ErrorTable) (level : Level) (now timeout : Nat) (s : Submission) :
    Outcome × Nat :=
  s.watch.wait table level (now + timeout) s.feed now

/-- Stops watching; the status stays as it is. -/
def cut (s : Submission) : Submission :=
  { s with watch := s.watch.cut }

end Submission

/-- The issuer of one account's nonces, with all calls submitted through it, oldest first. -/
structure Tracker where
  account : AccountId
  cursor : NonceCursor
  submissions : List Submission := []

namespace Tracker

variable {σ κ : Type}

/-- Opens a tracker at the nonce that the chain reports. The account is claimed first, and given
back if the nonce cannot be read. -/
def open_ (client : Client σ κ) (w : World σ κ) (account : AccountId) :
    Except PipelineError Tracker × World σ κ :=
  match w.registry.acquire? account with
  | none => (.error (.alreadyOpen account), w)
  | some registry =>
    match client.nonce w.node w.now account with
    | (.error cause, node) => (.error (.chainUnavailable account cause), { w with node })
    | (.ok nonce, node) =>
      (.ok { account, cursor := ⟨nonce⟩ }, { w with node, registry }.notify (.opened account nonce))

/-- Submits a call under the next nonce without waiting for it, and gives a handle onto it. Nothing
happens if there is no nonce left. -/
def submit? (client : Client σ κ) (w : World σ κ) (t : Tracker) (call : κ) :
    Option (World σ κ × Tracker × Submission) :=
  match t.cursor.advance? with
  | none => none
  | some (nonce, cursor) =>
    let (taken, node) := client.handOver w.node w.now t.account nonce call
    let w :=
      { w with
        node
        aborts := w.aborts.schedule taken.firings
        tasks := w.tasks + 1 }
    let w := (w.record (.sent ⟨t.account, nonce, call⟩)).notify (.submitted t.account nonce)
    let submission : Submission :=
      { account := t.account, nonce, serial := w.tasks, feed := taken.feed }
    some (w, { t with cursor, submissions := t.submissions ++ [submission] }, submission)

/-- Reads the chain's nonce into the cursor, so that the nonces of calls that never landed are used
again. -/
def resync (client : Client σ κ) (w : World σ κ) (t : Tracker) :
    Except PipelineError Nat × World σ κ × Tracker :=
  match client.nonce w.node w.now t.account with
  | (.error cause, node) => (.error (.chainUnavailable t.account cause), { w with node }, t)
  | (.ok nonce, node) =>
    (.ok nonce, { w with node }.notify (.resynced t.account t.cursor.peek nonce),
      { t with cursor := t.cursor.reset nonce })

/-- Takes the reports due by now. -/
def settle (table : ErrorTable) (now : Nat) (t : Tracker) : Tracker :=
  { t with submissions := t.submissions.map (·.settle table now) }

/-- What the reports due by now tell the log, in the order of their moments. -/
def notices (table : ErrorTable) (now : Nat) (t : Tracker) : List (Nat × Notice) :=
  (t.submissions.flatMap (·.notices table now)).mergeSort fun a b => a.1 ≤ b.1

/-- How many submissions are still watched. -/
def unresolved (t : Tracker) : Nat :=
  t.submissions.countP (·.watch.reading)

/-- Stops watching all submissions. -/
def cut (t : Tracker) : Tracker :=
  { t with submissions := t.submissions.map Submission.cut }

/-- Ends a tracker without a word. -/
def release (w : World σ κ) (t : Tracker) : World σ κ :=
  { w with registry := w.registry.release t.account }

/-- Closes a tracker. Calls already handed over are not recalled. -/
def close (w : World σ κ) (t : Tracker) : World σ κ :=
  t.release (w.notify (.closed t.account t.unresolved))

end Tracker

end ShellSale
