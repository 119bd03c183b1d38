import ShellSale.Rehearsal.Session

/-!
# Operations of a session

What can be done with the pipeline, one operation at a time, and what each answers.
-/

namespace ShellSale

/-- An operation of a session. -/
inductive Operation where
  | openTracker (tracker : String) (account : AccountId)
  | submit (tracker submission : String) (script : List (Nat × Act))
  /-- Delivers reports to a submission. -/
  | deliver (submission : String) (reports : List Report)
  | status (submission : String)
  | await (submission : String) (level : Level) (timeout : Nat)
  | spawnAwait (waiter submission : String) (level : Level) (timeout : Nat)
  | poll (waiter : String)
  | join (waiter : String)
  | sleep (ms : Nat)
  | nextNonce (tracker : String)
  | resync (tracker : String)
  | close (tracker : String)
  | drop (tracker : String)
  | lease (lease : String) (account : AccountId)
  | release (lease : String)
  | created (first second : String)
  | signer (account : AccountId)
  | setNonce (account : AccountId) (nonce : Nat)
  | setUnavailable (message : Option String)
  | createAbort (handle : String)
  | abort (handle : String)
  | dropAbort (handle : String)
  | isAborted (handle : String)
  | submitted
  | run (tracker : String) (mode : Mode) (calls : List ScriptedCall) (options : Options)
  | across (batches : List (Batch ScriptedCall)) (mode : Mode) (options : Options)

/-- What an operation answers. -/
inductive Answer where
  | nothing
  | failed (e : PipelineError)
  | overflow (o : Overflow)
  | opened (account : AccountId) (nonce : Nat)
  /-- The call is handed over; its status before any report and after those due at once. -/
  | submitted (nonce : Nat) (account : AccountId) (before after : Status) (listening : Option Bool)
  /-- A status, and whether the feed is still read; nobody can tell once the feed has ended. -/
  | status (s : Status) (listening : Option Bool)
  | outcome (o : Outcome)
  | ended (o : Outcome) (at_ : Nat)
  | flag (b : Bool)
  | nonce (n : Nat)
  | account (a : AccountId)
  | texts (ts : List String)
  | sent (calls : List (Sent ScriptedCall))
  | outcomes (os : List Outcome)
  | byAccount (results : AccountMap (List Outcome))

/-- Whether a submission's feed is still read, as long as it has not ended. -/
def Submission.listening (s : Submission) : Option Bool :=
  if s.ended then none else some s.watch.reading

/-- A signer as text: its account, and nothing of its key. -/
def signerText (a : AccountId) : String :=
  "Signer \x7b account: \"" ++ a.address ++ "\", .. \x7d"

namespace Session

/-- The answer of a submission's status. -/
def statusAt (s : Session) (p : Place) : Answer :=
  match s.at? p with
  | some submission => .status submission.watch.status submission.listening
  | none => .nothing

/-- Opens a tracker. One under the same name is dropped when the new one is there. -/
def openTracker (s : Session) (name : String) (account : AccountId) : Answer × Session :=
  match Tracker.open_ s.client s.world account with
  | (.error e, world) => (.failed e, { s with world })
  | (.ok t, world) =>
    let s := { s with world }
    let s :=
      match s.tracker? name with
      | some (number, old) => { s.retire name number with world := old.release s.world }
      | none => s
    (.opened account t.cursor.peek,
      { s with
        trackers := s.trackers ++ [t]
        openTrackers := (name, s.trackers.length) :: s.openTrackers })

/-- Submits a call. -/
def submit (s : Session) (tracker name : String) (script : List (Nat × Act)) :
    Answer × Session :=
  match s.tracker? tracker with
  | none => (.nothing, s)
  | some (number, t) =>
    match t.submit? s.client s.world ⟨name, script⟩ with
    | none => (.overflow .addition, s)
    | some (world, t, submission) =>
      let place : Place := ⟨number, t.submissions.length - 1⟩
      let s := { (s.setTracker number t) with
        world
        submissions := (name, place) :: s.submissions }
      let s := s.advance s.world.now
      match s.at? place with
      | none => (.nothing, s)
      | some settled =>
        (.submitted submission.nonce submission.account submission.watch.status
          settled.watch.status settled.listening, s)

/-- Waits for a submission. -/
def await (s : Session) (name : String) (level : Level) (timeout : Nat) : Answer × Session :=
  match s.submission? name with
  | none => (.nothing, s)
  | some (_, submission) =>
    let (outcome, wake) := submission.wait s.client.errors level s.world.now timeout
    let s := s.advance wake
    let world :=
      if outcome = .timedOut then
        s.world.notify (.gaveUp submission.account submission.nonce timeout)
      else s.world
    (.outcome outcome, { s with world })

/-- Lets time pass until a waiter has come to its end. -/
def join (s : Session) (name : String) : Answer × Session :=
  match s.waiters.find? fun w => w.name == name with
  | none => (.nothing, s)
  | some w =>
    let finished :=
      match s.at? w.place with
      | some submission =>
        (submission.watch.wait s.client.errors w.level w.deadline submission.feed s.world.now).2
      | none => s.world.now
    let s := s.advance (if w.result.isSome then s.world.now else finished)
    match (s.waiters.find? fun w => w.name == name).bind (·.result) with
    | some (outcome, at_) => (.ended outcome at_, s)
    | none => (.nothing, s)

/-- Runs a batch on an open tracker. Others see the same time pass. -/
def run (s : Session) (tracker : String) (mode : Mode) (calls : List ScriptedCall)
    (options : Options) : Answer × Session :=
  match s.tracker? tracker with
  | none => (.nothing, s)
  | some (number, t) =>
    let (world, r) := runBatch s.client s.world t mode options calls
    let others := { s with
      trackers := s.trackers.set number { t with submissions := [] }
      world := { world with now := s.world.now, log := [] } }
    let waiters := s.waiters.map (·.advance s world.now)
    let gaveUp := s.waiters.filterMap (·.notice? s world.now)
    let after := others.advance world.now
    let s := { (after.setTracker number r.tracker) with
      waiters
      world := { after.world with
        log := world.log ++ after.world.log ++ gaveUp.map fun (at_, n) => (at_, .notice n) } }
    (if r.stage = .overflowed then .overflow .addition else .outcomes r.outcomes, s)

/-- Runs a batch per signer. Others see the same time pass. -/
def across (s : Session) (batches : List (Batch ScriptedCall)) (mode : Mode) (options : Options) :
    Answer × Session :=
  let (result, world) := runAcross s.client s.world batches mode options
  let later := world.now
  let s := { s with world := { world with now := s.world.now } }
  let s := s.advance later
  match result with
  | .ok results => (.byAccount results, s)
  | .error e => (.failed e, s)

/-- Performs an operation. -/
def perform (s : Session) : Operation → Answer × Session
  | .openTracker name account => s.openTracker name account
  | .submit tracker name script => s.submit tracker name script
  | .deliver name reports =>
    match s.submission? name with
    | none => (.nothing, s)
    | some (place, _) =>
      let delivered := reports.map fun r => (s.world.now, r)
      let s := s.modifyAt place fun submission =>
        { submission with feed := delivered ++ submission.feed }
      let s := s.advance s.world.now
      (s.statusAt place, s)
  | .status name =>
    match s.submission? name with
    | none => (.nothing, s)
    | some (place, _) => (s.statusAt place, s)
  | .await name level timeout => s.await name level timeout
  | .spawnAwait waiter name level timeout =>
    match s.submission? name with
    | none => (.nothing, s)
    | some (place, _) =>
      let w : Waiter :=
        { name := waiter, place, level, timeout, deadline := s.world.now + timeout }
      (.nothing, { s with waiters := s.waiters.filter (·.name != waiter) ++ [w] })
  | .poll waiter =>
    (.flag ((s.waiters.find? fun w => w.name == waiter).any (·.result.isSome)), s)
  | .join waiter => s.join waiter
  | .sleep ms => (.nothing, s.advance (s.world.now + ms))
  | .nextNonce name =>
    match s.tracker? name with
    | none => (.nothing, s)
    | some (_, t) => (.nonce t.cursor.peek, s)
  | .resync name =>
    match s.tracker? name with
    | none => (.nothing, s)
    | some (number, t) =>
      match t.resync s.client s.world with
      | (.error e, world, _) => (.failed e, { s with world })
      | (.ok nonce, world, t) => (.nonce nonce, { (s.setTracker number t) with world })
  | .close name =>
    match s.tracker? name with
    | none => (.nothing, s)
    | some (number, t) => (.nothing, { (s.retire name number) with world := t.close s.world })
  | .drop name =>
    match s.tracker? name with
    | none => (.nothing, s)
    | some (number, t) => (.nothing, { (s.retire name number) with world := t.release s.world })
  | .lease name account =>
    match s.world.registry.acquire? account with
    | none => (.failed (.alreadyOpen account), s)
    | some registry =>
      let registry := ((named? s.leases name).map registry.release).getD registry
      (.account account,
        { s with
          world := { s.world with registry }
          leases := (name, account) :: s.leases.filter fun e => e.1 != name })
  | .release name =>
    match named? s.leases name with
    | none => (.flag false, s)
    | some account =>
      (.flag true,
        { s with
          world := { s.world with registry := s.world.registry.release account }
          leases := s.leases.filter fun e => e.1 != name })
  | .created first second =>
    match s.submission? first, s.submission? second with
    | some (_, a), some (_, b) => (.flag (a.serial ≤ b.serial), s)
    | _, _ => (.nothing, s)
  | .signer account => (.texts [signerText account, signerText account], s)
  | .setNonce account nonce =>
    let node := s.world.node
    (.nothing,
      { s with world := { s.world with
          node := { node with nonces := node.nonces.insert account nonce } } })
  | .setUnavailable message =>
    (.nothing,
      { s with world := { s.world with node := { s.world.node with unavailable := message } } })
  | .createAbort handle =>
    (.nothing, { s with world := { s.world with aborts := s.world.aborts.create handle } })
  | .abort handle =>
    (.nothing, { s with world := { s.world with aborts := s.world.aborts.fire handle } })
  | .dropAbort handle =>
    (.nothing, { s with world := { s.world with aborts := s.world.aborts.drop handle } })
  | .isAborted handle => (.flag (s.world.aborts.isRaised s.world.now handle), s)
  | .submitted => (.sent s.sent, s)
  | .run tracker mode calls options => s.run tracker mode calls options
  | .across batches mode options => s.across batches mode options

/-- What a session reports about an operation: its answer, the time after it, and what it told the
log. -/
structure StepReport where
  answer : Answer
  now : Nat
  notices : List Notice

/-- Performs an operation, and takes all reports due at its end. -/
def step (s : Session) (o : Operation) : StepReport × Session :=
  let (answer, s) := s.turnPage.perform o
  let s := s.advance s.world.now
  (⟨answer, s.world.now, s.notices⟩, s)

/-- Performs operations one after the other. -/
def play : Session → List Operation → List StepReport × Session
  | s, [] => ([], s)
  | s, o :: rest =>
    let (report, s) := s.step o
    let (reports, s) := s.play rest
    (report :: reports, s)

end Session

end ShellSale
