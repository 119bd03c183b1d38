import ShellSale.Pipeline.Error
import ShellSale.Submission.Watch
import ShellSale.Text.Duration
import ShellSale.Text.LogLine

/-!
# Notices of the pipeline

Everything the pipeline tells the log, as data; `Notice.line` gives the wording.
-/

namespace ShellSale

/-- Something the pipeline tells the log. -/
inductive Notice where
  | opened (account : AccountId) (nonce : Nat)
  | submitted (account : AccountId) (nonce : Nat)
  | resynced (account : AccountId) (old new : Nat)
  | closed (account : AccountId) (unresolved : Nat)
  | included (account : AccountId) (nonce : Nat) (block : BlockHash)
  | retracted (account : AccountId) (nonce : Nat)
  | finalized (account : AccountId) (nonce : Nat) (block : BlockHash)
  | failed (account : AccountId) (nonce : Nat) (block : BlockHash) (reason : FailureReason)
  | invalid (account : AccountId) (nonce : Nat) (message : String)
  | dropped (account : AccountId) (nonce : Nat) (message : String)
  | lost (account : AccountId) (nonce : Nat) (message : String)
  | endedAfterInclusion (account : AccountId) (nonce : Nat) (block : BlockHash)
  | endedBeforeInclusion (account : AccountId) (nonce : Nat)
  | gaveUp (account : AccountId) (nonce timeout : Nat)
  | abortedBatch (account : AccountId) (left total : Nat)
  | stoppedBatch (account : AccountId) (nonce : Nat)
  | stoppedCollecting (account : AccountId) (nonce : Nat)
  | batchDone (account : AccountId) (accepted total : Nat)
  | batchFailed (account : AccountId) (error : PipelineError)
  | batchUnfinished (account : AccountId) (task : Nat) (overflow : Overflow)
deriving DecidableEq

namespace Notice

/-- A call in messages: its account and nonce. -/
def callName (account : AccountId) (nonce : Nat) : String :=
  account.address ++ " nonce " ++ toString nonce

/-- The log line of a notice. -/
def line : Notice → LogLine
  | opened a n =>
    ⟨.info, "🔑 Opened tracker for " ++ a.address ++ " at nonce " ++ toString n⟩
  | submitted a n =>
    ⟨.info, "📤 Submitted call from " ++ a.address ++ " with nonce " ++ toString n⟩
  | resynced a old new =>
    ⟨.info, "🔄 Resynced nonce for " ++ a.address ++ ": " ++ toString old ++ " -> " ++ toString new⟩
  | closed a k =>
    ⟨.info, "🔒 Closed tracker for " ++ a.address ++ " (" ++ toString k ++
      " submissions still unresolved)"⟩
  | included a n b => ⟨.info, "📦 " ++ callName a n ++ " included in block " ++ b.hex⟩
  | retracted a n => ⟨.warn, "⚠️ " ++ callName a n ++ " is no longer in the best block"⟩
  | finalized a n b => ⟨.info, "✅ " ++ callName a n ++ " finalized in block " ++ b.hex⟩
  | failed a n b r =>
    ⟨.error, "❌ " ++ callName a n ++ " failed in block " ++ b.hex ++ ": " ++ r.text⟩
  | invalid a n m => ⟨.error, "❌ " ++ callName a n ++ " invalid: " ++ m⟩
  | dropped a n m => ⟨.error, "❌ " ++ callName a n ++ " dropped: " ++ m⟩
  | lost a n m =>
    ⟨.warn, "⚠️ Stopped tracking " ++ callName a n ++ ", outcome unknown: " ++ m⟩
  | endedAfterInclusion a n b =>
    ⟨.warn, "⚠️ Status stream for " ++ callName a n ++ " ended after inclusion in " ++ b.hex ++
      ", outcome unknown"⟩
  | endedBeforeInclusion a n =>
    ⟨.warn, "⚠️ Status stream for " ++ callName a n ++ " ended before inclusion"⟩
  | gaveUp a n t =>
    ⟨.warn, "⏳ Gave up waiting on " ++ callName a n ++ " after " ++ Text.duration t⟩
  | abortedBatch a left total =>
    ⟨.warn, "🛑 Aborted batch for " ++ a.address ++ ": " ++ toString left ++ " of " ++
      toString total ++ " calls not submitted"⟩
  | stoppedBatch a n =>
    ⟨.warn, "🛑 Stopping batch for " ++ a.address ++ " after nonce " ++ toString n⟩
  | stoppedCollecting a n =>
    ⟨.warn, "🛑 Stopped collecting outcomes for " ++ a.address ++ " at nonce " ++ toString n⟩
  | batchDone a accepted total =>
    ⟨.info, "📊 " ++ a.address ++ ": " ++ toString accepted ++ " of " ++ toString total ++
      " calls accepted"⟩
  | batchFailed a e => ⟨.error, "❌ Batch for " ++ a.address ++ " failed: " ++ e.message⟩
  | batchUnfinished a task overflow =>
    ⟨.error, "❌ Batch task for " ++ a.address ++ " did not finish: " ++
      PipelineError.taskEnd task overflow⟩

end Notice

/-- What a report on the call of `account` with `nonce` tells the log, `none` once nobody reads. -/
def Watch.notice? (table : ErrorTable) (account : AccountId) (nonce : Nat) (w : Watch)
    (r : Report) : Option Notice :=
  if w.reading then
    some <| match r with
    | .event (.inBlock block) => .included account nonce block
    | .event .retracted => .retracted account nonce
    | .event (.finalized block events) =>
      match table.reason? events with
      | some reason => .failed account nonce block reason
      | none => .finalized account nonce block
    | .event (.invalid message) => .invalid account nonce message
    | .event (.dropped message) => .dropped account nonce message
    | .event (.lost message) => .lost account nonce message
    | .finished =>
      match w.status with
      | .inBlock block => .endedAfterInclusion account nonce block
      | _ => .endedBeforeInclusion account nonce
  else none

/-- The notices of a list of reports, each with its moment. -/
def Watch.notices (table : ErrorTable) (account : AccountId) (nonce : Nat) :
    Watch → Feed → List (Nat × Notice)
  | _, [] => []
  | w, (at_, r) :: rest =>
    ((w.notice? table account nonce r).toList.map fun n => (at_, n)) ++
      Watch.notices table account nonce (w.next table r) rest

end ShellSale
