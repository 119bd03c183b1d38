import Mathlib.Data.List.Induction
import Mathlib.Data.List.TakeWhile
import ShellSale.Submission.Watch

/-!
## The status of a call, read off its reports

`Status.ofReports` says without a state what the reports of a call make of its status: the first
report that settles the call or ends the watch decides, and up to it the last report alone counts.

* `Watch.after_open` and `Watch.after_closed` are the two halves of the loop invariant: before a
  closing report the watch reads on and stands where the last report put it, and the closing report
  settles it for good.
* `Watch.status_after` is the main result: the watch publishes just this status after every prefix
  of every stream, and neither a report behind the closing one nor any other future changes it.
-/

namespace ShellSale

/-! ### The reference -/

/-- Whether a report is the last one that a watch takes in: whatever does not merely move the call
into a block or out of it again. -/
def Report.isClosing : Report → Bool
  | .event (.inBlock _) | .event .retracted => false
  | _ => true

/-- The failure that an event tells, still in raw form. -/
def ChainEvent.failure? : ChainEvent → Option DispatchFailure
  | .extrinsicFailed failure => some failure
  | _ => none

/-- A failure decoded by the runtime's table; one that the table lacks keeps its numbers. -/
def DispatchFailure.decode (table : ErrorTable) : DispatchFailure → FailureReason
  | .pallet index error =>
    match table index error with
    | some known => .pallet known
    | none =>
      .pallet
        { pallet := "pallet" ++ toString index.toNat
          variant := "error" ++ toString error[0].toNat
          description := "Unknown module error" }
  | .other message => .dispatch message

/-- What the events of a final block say about a reverted call: its first failure, decoded. -/
def FailureReason.ofEvents? (table : ErrorTable) (events : List ChainEvent) :
    Option FailureReason :=
  (events.filterMap ChainEvent.failure?).head?.map (DispatchFailure.decode table)

/-- Where a call stands whose reports are all inclusions and retractions: the last one counts. -/
def Status.standing (rs : List Report) : Status :=
  match rs.getLast? with
  | some (.event (.inBlock block)) => .inBlock block
  | _ => .pending

/-- What a closing report makes of the status that it finds. -/
def Status.closedBy (table : ErrorTable) (s : Status) : Report → Status
  | .event (.finalized block events) => .finalized block (FailureReason.ofEvents? table events)
  | .event (.invalid message) => .invalid message
  | .event (.dropped message) => .dropped message
  | .finished => if s = .pending then .dropped Watch.endedEarly else s
  | _ => s

/-- The status that reports give a call: the first closing report decides, and without one the call
stands where the last report left it. -/
def Status.ofReports (table : ErrorTable) (rs : List Report) : Status :=
  let standing := Status.standing (rs.takeWhile fun r => !r.isClosing)
  match rs.find? Report.isClosing with
  | some r => standing.closedBy table r
  | none => standing

theorem Status.standing_concat (rs : List Report) (r : Report) :
    Status.standing (rs ++ [r]) =
      match r with
      | .event (.inBlock block) => .inBlock block
      | _ => .pending := by
  rw [Status.standing, List.getLast?_concat]
  cases r with
  | finished => rfl
  | event e => cases e <;> rfl

theorem Status.standing_eq (rs : List Report) :
    Status.standing rs = .pending ∨ ∃ block, Status.standing rs = .inBlock block := by
  unfold Status.standing
  split
  · exact Or.inr ⟨_, rfl⟩
  · exact Or.inl rfl

/-! ### Decoding of failures -/

theorem reasonOf_eq (table : ErrorTable) (e : ChainEvent) :
    table.reasonOf e = e.failure?.map (DispatchFailure.decode table) := by
  cases e with
  | extrinsicSuccess => rfl
  | other pallet variant => rfl
  | extrinsicFailed failure =>
    cases failure with
    | other message => rfl
    | pallet index error =>
      simp only [ErrorTable.reasonOf, ErrorTable.describe, ChainEvent.failure?, Option.map_some,
        DispatchFailure.decode, ErrorBytes.variant]
      cases table index error <;> rfl

theorem reason?_eq (table : ErrorTable) (events : List ChainEvent) :
    table.reason? events = FailureReason.ofEvents? table events := by
  induction events with
  | nil => rfl
  | cons e events ih =>
    rw [ErrorTable.reason?] at ih ⊢
    rw [List.findSome?_cons, reasonOf_eq, ih, FailureReason.ofEvents?, FailureReason.ofEvents?,
      List.filterMap_cons]
    cases e.failure? <;> rfl

/-! ### The loop invariant -/

namespace Watch

/-- A watch that still reads has no terminal status. -/
def Sound (w : Watch) : Prop :=
  w.status.isTerminal = true → w.reading = false

theorem sound_next (table : ErrorTable) (w : Watch) (r : Report) : (w.next table r).Sound := by
  intro terminal
  by_cases reading : w.reading = true
  · simp only [Watch.next, reading, ↓reduceIte] at terminal ⊢
    cases r with
    | finished => cases w.status <;> rfl
    | event e => cases e <;> simp_all [Status.ofEvent?]
  · have stopped : w.reading = false := by simpa using reading
    rw [next_of_not_reading table stopped, stopped]

theorem Sound.after (table : ErrorTable) {w : Watch} (h : w.Sound) (rs : List Report) :
    (w.after table rs).Sound := by
  induction rs generalizing w with
  | nil => exact h
  | cons r rs ih => exact ih (sound_next table w r)

theorem sound_new : ({} : Watch).Sound := by
  intro terminal
  cases terminal

/-- Once a watch has a terminal status, no report has any effect. -/
theorem Sound.after_of_isTerminal (table : ErrorTable) {w : Watch} (h : w.Sound)
    (terminal : w.status.isTerminal = true) (rs : List Report) : w.after table rs = w :=
  after_of_not_reading table (h terminal) rs

/-- **The loop invariant.** While no report has closed the watch, it reads on, and the last report
alone says where the call stands. -/
theorem after_open (table : ErrorTable) (rs : List Report) (h : ∀ r ∈ rs, r.isClosing = false) :
    after table {} rs = { status := Status.standing rs, reading := true } := by
  -- the last report decides, so the induction takes reports off the end
  induction rs using List.reverseRecOn with
  | nil => rfl
  | append_singleton rs r ih =>
    have before : ∀ r ∈ rs, r.isClosing = false := fun r' mem => h r' (List.mem_append_left _ mem)
    have last : r.isClosing = false := h r (by simp)
    rw [after_append, ih before, after_cons, after_nil, Status.standing_concat]
    cases r with
    | finished => cases last
    | event e =>
      cases e with
      | inBlock block => rfl
      | retracted => rfl
      | _ => cases last

/-- A closing report settles a watch that still reads. -/
theorem next_closing (table : ErrorTable) (rs : List Report) {r : Report}
    (h : r.isClosing = true) :
    next table { status := Status.standing rs, reading := true } r =
      { status := (Status.standing rs).closedBy table r, reading := false } := by
  cases r with
  | finished =>
    rcases Status.standing_eq rs with pending | ⟨block, included⟩
    · rw [pending]
      rfl
    · rw [included]
      rfl
  | event e =>
    cases e with
    | inBlock block => cases h
    | retracted => cases h
    | finalized block events =>
      rw [Status.closedBy, ← reason?_eq]
      rfl
    | invalid message => rfl
    | dropped message => rfl
    | lost message => rfl

/-- Nothing behind the first closing report has any effect. -/
theorem after_closed (table : ErrorTable) {before : List Report} {r : Report} (later : List Report)
    (h : ∀ r ∈ before, r.isClosing = false) (closing : r.isClosing = true) :
    after table {} (before ++ r :: later) =
      { status := (Status.standing before).closedBy table r, reading := false } := by
  rw [after_append, after_open table before h, after_cons, next_closing table before closing]
  exact after_of_not_reading table rfl later

/-- Every list of reports has closed the watch at a first report, or not at all. -/
theorem exists_closing_or (rs : List Report) :
    (∃ before r later, rs = before ++ r :: later ∧ (∀ r ∈ before, r.isClosing = false) ∧
      r.isClosing = true) ∨ ∀ r ∈ rs, r.isClosing = false := by
  cases found : rs.find? Report.isClosing with
  | none =>
    right
    simpa using found
  | some r =>
    left
    obtain ⟨closing, before, later, rfl, none⟩ := List.find?_eq_some_iff_append.mp found
    exact ⟨before, r, later, rfl, fun r' mem => by simpa using none r' mem, closing⟩

theorem status_after_eq (table : ErrorTable) (rs : List Report) :
    (after table {} rs).status = Status.ofReports table rs := by
  rcases exists_closing_or rs with ⟨before, r, later, rfl, opened, closing⟩ | opened
  · have found : (before ++ r :: later).find? Report.isClosing = some r := by
      rw [List.find?_append, List.find?_eq_none.mpr (by simpa using opened),
        List.find?_cons_of_pos closing]
      rfl
    have taken : (before ++ r :: later).takeWhile (fun r => !r.isClosing) = before := by
      rw [List.takeWhile_append_of_pos (by simpa using opened),
        List.takeWhile_cons_of_neg (by simpa using closing), List.append_nil]
    rw [after_closed table later opened closing, Status.ofReports, found, taken]
  · have found : rs.find? Report.isClosing = none := List.find?_eq_none.mpr (by simpa using opened)
    have taken : rs.takeWhile (fun r => !r.isClosing) = rs := by
      rw [List.takeWhile_eq_self_iff]
      simpa using opened
    rw [after_open table rs opened, Status.ofReports, found, taken]

/-- A closing report stops the watch, wherever it stands. -/
theorem reading_after_closing (table : ErrorTable) (rs : List Report) {r : Report}
    (closing : r.isClosing = true) : (after table {} (rs ++ [r])).reading = false := by
  rcases exists_closing_or rs with ⟨before, r', later, rfl, opened, closing'⟩ | opened
  · rw [List.append_assoc, List.cons_append, after_closed table _ opened closing']
  · rw [after_closed table [] opened closing]

/-- **The published status.** For every list of reports, that is for every prefix of every stream of
events that ends or stays open: the watch publishes the status of the reference, no report behind a
closing one has any effect, and a terminal status stays in every future. -/
theorem status_after (table : ErrorTable) (rs : List Report) :
    (after table {} rs).status = Status.ofReports table rs ∧
      (∀ r later, r.isClosing = true →
        after table {} (rs ++ r :: later) = after table {} (rs ++ [r])) ∧
      ((after table {} rs).status.isTerminal = true →
        ∀ later, (after table {} (rs ++ later)).status = (after table {} rs).status) := by
  refine ⟨status_after_eq table rs, ?_, ?_⟩
  · intro r later closing
    rw [List.append_cons, after_append]
    exact after_of_not_reading table (reading_after_closing table rs closing) later
  · intro terminal later
    rw [after_append, (sound_new.after table rs).after_of_isTerminal table terminal]

/-- A call that moves from one block to another and is reverted there, with an error that the table
lacks and reports that come too late. -/
theorem status_after_moved_and_reverted :
    let table : ErrorTable := fun _ _ => none
    let block := BlockHash.ofNat 2
    let rs : List Report :=
      [.event (.inBlock (BlockHash.ofNat 1)), .event .retracted, .event (.inBlock block),
        .event (.finalized block
          [.other "Balances" "Withdraw", .extrinsicFailed (.pallet 88 #v[3, 0, 0, 0]),
            .extrinsicFailed (.other "BadOrigin")])]
    let reverted : Status :=
      .finalized block (some (.pallet ⟨"pallet88", "error3", "Unknown module error"⟩))
    (after table {} rs).status = reverted ∧
      (after table {} (rs ++ [.event (.dropped "late"), .finished])).status = reverted ∧
      after table {} (rs ++ [.event (.lost "gone"), .finished]) =
        after table {} (rs ++ [.event (.lost "gone")]) := by
  intro table block rs reverted
  obtain ⟨status, closed, stays⟩ := status_after table rs
  have settled : (after table {} rs).status = reverted := by
    rw [status]
    rfl
  refine ⟨settled, ?_, closed _ _ rfl⟩
  rw [stays (by rw [settled]; rfl), settled]

end Watch

end ShellSale
