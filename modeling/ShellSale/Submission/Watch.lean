import ShellSale.Submission.Status

/-!
# Watching a feed

A watch folds the reports of one submission's feed into its status. It reads until the status is
terminal, the node has lost track of the call, or the feed ends; from then on nothing changes.
`Watch.next` is one step, `Watch.after` a whole feed.
-/

namespace ShellSale

/-- Decodes the error of a pallet by the runtime's table. -/
abbrev ErrorTable := UInt8 → ErrorBytes → Option PalletError

namespace ErrorTable

/-- The decoded error, or its numbers if the table lacks it. -/
def describe (table : ErrorTable) (index : UInt8) (error : ErrorBytes) : PalletError :=
  (table index error).getD
    { pallet := "pallet" ++ toString index.toNat
      variant := "error" ++ toString error.variant.toNat
      description := "Unknown module error" }

/-- The reason that one event gives, if it is a failure. -/
def reasonOf (table : ErrorTable) : ChainEvent → Option FailureReason
  | .extrinsicFailed (.pallet index error) => some (.pallet (table.describe index error))
  | .extrinsicFailed (.other message) => some (.dispatch message)
  | _ => none

/-- The reason that the first failure among the events gives. -/
def reason? (table : ErrorTable) (events : List ChainEvent) : Option FailureReason :=
  events.findSome? table.reasonOf

end ErrorTable

/-- The status that a call gets from an event, `none` if the event leaves it as it is. -/
def Status.ofEvent? (table : ErrorTable) : StatusEvent → Option Status
  | .inBlock block => some (.inBlock block)
  | .retracted => some .pending
  | .finalized block events => some (.finalized block (table.reason? events))
  | .invalid message => some (.invalid message)
  | .dropped message => some (.dropped message)
  | .lost _ => none

/-- A status together with whether the feed behind it is still read. -/
structure Watch where
  status : Status := .pending
  reading : Bool := true
deriving DecidableEq

namespace Watch

/-- What a call is recorded as whose feed ends before it was in a block. -/
def endedEarly : String :=
  "status stream ended before the call was included"

/-- The watch after one report. -/
def next (table : ErrorTable) (w : Watch) (r : Report) : Watch :=
  if w.reading then
    match r with
    | .event e =>
      match Status.ofEvent? table e with
      | some s => { status := s, reading := !s.isTerminal }
      | none => { w with reading := false }
    | .finished =>
      match w.status with
      | .inBlock _ => { w with reading := false }
      | _ => { status := .dropped endedEarly, reading := false }
  else w

/-- The watch after a list of reports. -/
def after (table : ErrorTable) (w : Watch) (rs : List Report) : Watch :=
  rs.foldl (next table) w

/-- Stops reading; the status stays as it is. -/
def cut (w : Watch) : Watch :=
  { w with reading := false }

/-- What a caller at a level is told on looking: the outcome of the status, a timeout if the status
yields none and nobody reads on, and otherwise nothing yet. -/
def verdict (w : Watch) (level : Level) : Option Outcome :=
  match w.status.resolve level with
  | some outcome => some outcome
  | none => if w.reading then none else some .timedOut

@[simp] theorem next_of_not_reading (table : ErrorTable) {w : Watch} (h : w.reading = false)
    (r : Report) : w.next table r = w := by
  simp [next, h]

/-- Once nobody reads, no report has any effect. -/
@[simp] theorem after_of_not_reading (table : ErrorTable) {w : Watch} (h : w.reading = false)
    (rs : List Report) : w.after table rs = w := by
  induction rs with
  | nil => rfl
  | cons r rs ih => simpa [after, next_of_not_reading table h r] using ih

@[simp] theorem after_nil (table : ErrorTable) (w : Watch) : w.after table [] = w := rfl

@[simp] theorem after_cons (table : ErrorTable) (w : Watch) (r : Report) (rs : List Report) :
    w.after table (r :: rs) = (w.next table r).after table rs := rfl

theorem after_append (table : ErrorTable) (w : Watch) (rs rs' : List Report) :
    w.after table (rs ++ rs') = (w.after table rs).after table rs' :=
  List.foldl_append

end Watch

end ShellSale
