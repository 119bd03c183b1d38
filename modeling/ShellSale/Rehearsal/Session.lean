import ShellSale.Batch.Across
import ShellSale.Rehearsal.Stage

/-!
# Sessions

A session is everything that somebody who rehearses with a scripted chain holds: trackers,
submissions, waits that go on in the background, leases, each under a name. Time stands still
between its operations and advances only where one of them waits.
-/

namespace ShellSale

/-- Where a submission is kept: the number of its tracker, and its place there. -/
structure Session.Place where
  tracker : Nat
  index : Nat
deriving DecidableEq

/-- A wait in the background. -/
structure Session.Waiter where
  name : String
  place : Session.Place
  level : Level
  timeout : Nat
  deadline : Nat
  /-- The outcome, and when the wait ended. -/
  result : Option (Outcome × Nat) := none

/-- A session with a scripted chain. -/
structure Session where
  world : World Stage ScriptedCall
  /-- All trackers ever opened, also those that are closed. -/
  trackers : List Tracker := []
  /-- The open trackers by name. -/
  openTrackers : List (String × Nat) := []
  /-- The submissions by name. -/
  submissions : List (String × Session.Place) := []
  waiters : List Session.Waiter := []
  leases : List (String × AccountId) := []
  /-- The calls handed over before the present operation. -/
  history : List (Sent ScriptedCall) := []

namespace Session

/-- The connection to the chain of the session. -/
def client (s : Session) : Client Stage ScriptedCall :=
  Stage.client s.world.node.errors

/-- The value under a name; the latest counts. -/
def named? {α : Type} (entries : List (String × α)) (name : String) : Option α :=
  (entries.find? fun e => e.1 == name).map (·.2)

/-- The open tracker with a name, and its number. -/
def tracker? (s : Session) (name : String) : Option (Nat × Tracker) := do
  let number ← named? s.openTrackers name
  let tracker ← s.trackers[number]?
  return (number, tracker)

/-- The submission at a place. -/
def at? (s : Session) (p : Place) : Option Submission := do
  let tracker ← s.trackers[p.tracker]?
  tracker.submissions[p.index]?

/-- The submission with a name, and its place. -/
def submission? (s : Session) (name : String) : Option (Place × Submission) := do
  let place ← named? s.submissions name
  let submission ← s.at? place
  return (place, submission)

/-- Puts a tracker in the place of the one with a number. -/
def setTracker (s : Session) (number : Nat) (t : Tracker) : Session :=
  { s with trackers := s.trackers.set number t }

/-- Changes the submission at a place. -/
def modifyAt (s : Session) (p : Place) (f : Submission → Submission) : Session :=
  { s with trackers := s.trackers.modify p.tracker fun t =>
      { t with submissions := t.submissions.modify p.index f } }

/-- The waiter after the time from now to `later`: it may have come to its end. -/
def Waiter.advance (s : Session) (later : Nat) (w : Waiter) : Waiter :=
  match w.result, s.at? w.place with
  | none, some submission =>
    let (outcome, wake) :=
      submission.watch.wait s.client.errors w.level w.deadline submission.feed s.world.now
    if wake ≤ later then { w with result := some (outcome, wake) } else w
  | _, _ => w

/-- The notice of a wait that ended between now and `later`, if it gave up. -/
def Waiter.notice? (s : Session) (later : Nat) (w : Waiter) : Option (Nat × Notice) :=
  match w.result, (w.advance s later).result, s.at? w.place with
  | none, some (.timedOut, wake), some submission =>
    some (wake, .gaveUp submission.account submission.nonce w.timeout)
  | _, _, _ => none

/-- Lets time pass to a moment: all reports due by then are taken, and waits end. -/
def advance (s : Session) (later : Nat) : Session :=
  let reported := s.trackers.flatMap fun t => t.notices s.client.errors later
  let gaveUp := s.waiters.filterMap (·.notice? s later)
  { s with
    world :=
      { s.world.notifyAt (reported ++ gaveUp) with
        now := later
        aborts := s.world.aborts.settle later }
    trackers := s.trackers.map (·.settle s.client.errors later)
    waiters := s.waiters.map (·.advance s later) }

/-- Stops watching the calls of an open tracker, and forgets its name. -/
def retire (s : Session) (name : String) (number : Nat) : Session :=
  { s with
    trackers := s.trackers.modify number Tracker.cut
    openTrackers := s.openTrackers.filter fun e => e.1 != name }

/-- All calls handed over so far, by account, each account's in order. -/
def sent (s : Session) : List (Sent ScriptedCall) :=
  (s.history ++ s.world.sent).mergeSort fun a b => a.account.toNat ≤ b.account.toNat

/-- What the present operation has told the log, in the order of its moments. -/
def notices (s : Session) : List Notice :=
  (s.world.log.mergeSort fun a b => a.1 ≤ b.1).filterMap fun
    | (_, .notice n) => some n
    | _ => none

/-- Starts another operation with an empty log. -/
def turnPage (s : Session) : Session :=
  { s with history := s.history ++ s.world.sent, world := { s.world with log := [] } }

end Session

end ShellSale
