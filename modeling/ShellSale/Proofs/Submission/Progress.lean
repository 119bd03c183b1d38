import ShellSale.Proofs.Submission.FinalBlock
import ShellSale.Proofs.Submission.Waiting

/-!
## From the reports of a connection to the outcome

What a connection reports about a call becomes a feed, the feed moves the status of the call, and a
wait gives out what the status says. Here the three are taken together.

* `Progress.feed` is the feed of some reports.
* `Progress.Settles` says what the first final report makes of a call.
* `Progress.watch_of_isFinal`: behind a final report nothing is looked at.
* `Progress.after_feed` is the composition: all reports together leave the call as the first final
  one settles it.
* `Progress.wait_feed` is the main result: whoever waits long enough for the call to be final learns
  just what the first final report says.
-/

namespace ShellSale

namespace Progress

/-! ### The feed of a call -/

/-- The feed that a connection's reports give a call. -/
def feed (check : SuccessCheck) (reports : List (Nat × Progress)) : Feed :=
  .ofItems (watch check reports).1 (watch check reports).2

/-- What one report adds to the feed. -/
def told (check : SuccessCheck) (p : Progress) : List Report :=
  ((p.items check).filterMap WatchItem.event?).map .event

/-- **Behind a final report nothing is looked at**, whatever the reports are and wherever the final
one stands. -/
theorem watch_of_isFinal (check : SuccessCheck) (before : List (Nat × Progress))
    {r : Nat × Progress} (final : r.2.isFinal = true) (later : List (Nat × Progress)) :
    watch check (before ++ r :: later) = watch check (before ++ [r]) := by
  induction before with
  | nil => simp [watch, final]
  | cons head before ih => simp only [List.cons_append, watch, ih]

theorem ofItems_append (items more : List (Nat × WatchItem)) (stop : Option Nat) :
    Feed.ofItems (items ++ more) stop = Feed.ofItems items none ++ Feed.ofItems more stop := by
  rw [Feed.ofItems, Feed.ofItems, Feed.ofItems, List.filterMap_append, List.append_assoc]
  exact congrArg (· ++ _) (List.append_nil _).symm

theorem ofItems_items (check : SuccessCheck) (at_ : Nat) (p : Progress) :
    Feed.ofItems ((p.items check).map fun item => (at_, item)) none =
      (p.told check).map fun r => (at_, r) := by
  rw [Feed.ofItems, told, List.map_map, List.map_filterMap, List.filterMap_map]
  exact List.append_nil _

theorem feed_cons (check : SuccessCheck) (at_ : Nat) (p : Progress)
    (rest : List (Nat × Progress)) :
    feed check ((at_, p) :: rest) =
      (p.told check).map (fun r => (at_, r)) ++
        if p.isFinal then [(at_, .finished)] else feed check rest := by
  rw [← ofItems_items, feed, watch]
  cases final : p.isFinal with
  | true =>
    have seen := ofItems_append ((p.items check).map fun item => (at_, item)) [] (some at_)
    rw [List.append_nil] at seen
    exact seen
  | false => exact ofItems_append ..

section FinalBlock

variable {check : SuccessCheck} {b : FinalBlock}

theorem told_of_ok {events : List (Except String RuntimeEvent)} (h : check b = .ok events) :
    told check (.inFinalizedBlock b) =
      [.event (.finalized b.hash
        ((events.filterMap fun e => e.toOption).map RuntimeEvent.summary))] := by
  simp only [told, items, FinalBlock.items, h]
  rfl

theorem told_of_runtime {error : DispatchError} (h : check b = .error (.runtime error)) :
    told check (.inFinalizedBlock b) =
      [.event (.finalized b.hash [.extrinsicFailed error.failure])] := by
  simp only [told, items, FinalBlock.items, h]
  rfl

/-- A block that keeps what became of the call still tells that the call is in it. -/
theorem told_of_other {cause : String} (h : check b = .error (.other cause)) :
    told check (.inFinalizedBlock b) = [.event (.inBlock b.hash),
      .event (.lost ("finalized in " ++ b.hash.hex ++ " but its events could not be fetched: " ++
        cause))] := by
  simp only [told, items, FinalBlock.items, h]
  rfl

end FinalBlock

/-- The feed has the moments of the reports. -/
theorem exists_of_mem_feed {check : SuccessCheck} {reports : List (Nat × Progress)}
    {entry : Nat × Report} (mem : entry ∈ feed check reports) : ∃ r ∈ reports, entry.1 = r.1 := by
  induction reports with
  | nil => cases mem
  | cons head rest ih =>
    obtain ⟨at_, p⟩ := head
    rw [feed_cons] at mem
    rcases List.mem_append.mp mem with own | behind
    · obtain ⟨r, -, rfl⟩ := List.mem_map.mp own
      exact ⟨_, List.mem_cons_self, rfl⟩
    · split at behind
      · rw [List.mem_singleton.mp behind]
        exact ⟨_, List.mem_cons_self, rfl⟩
      · obtain ⟨r, mem, eq⟩ := ih behind
        exact ⟨r, List.mem_cons_of_mem _ mem, eq⟩

/-- The feed of reports up to a final one: what they tell one after the other, and the end. -/
theorem feed_of_isFinal (check : SuccessCheck) {before : List (Nat × Progress)}
    {r : Nat × Progress} (opened : ∀ r ∈ before, r.2.isFinal = false) (final : r.2.isFinal = true)
    (later : List (Nat × Progress)) :
    (feed check (before ++ r :: later)).map (·.2) =
      before.flatMap (fun r => r.2.told check) ++ (r.2.told check ++ [.finished]) := by
  induction before with
  | nil => simp [feed_cons check r.1 r.2 later, final, Function.comp_def]
  | cons head before ih =>
    rw [List.forall_mem_cons] at opened
    simp [feed_cons check head.1 head.2, opened.1, ih opened.2, Function.comp_def]

theorem feed_of_open (check : SuccessCheck) {reports : List (Nat × Progress)}
    (opened : ∀ r ∈ reports, r.2.isFinal = false) :
    (feed check reports).map (·.2) = reports.flatMap fun r => r.2.told check := by
  induction reports with
  | nil => rfl
  | cons head rest ih =>
    rw [List.forall_mem_cons] at opened
    simp [feed_cons check head.1 head.2, opened.1, ih opened.2, Function.comp_def]

/-! ### What the reports make of the status -/

/-- Where a report puts a call that is still on its way. -/
def place? : Progress → Option Status
  | inBestBlock block => some (.inBlock block)
  | noLongerInBestBlock => some .pending
  | _ => none

/-- Where a call stands behind reports of which none is final: the last one that speaks of a best
block counts. -/
def standing (reports : List Progress) : Status :=
  (reports.filterMap place?).getLast?.getD .pending

/-- What the first final report makes of a call that stands somewhere. -/
inductive Settles (pallets : List Pallet) (before : Status) : Progress → Status → Prop
  | succeeded {b : FinalBlock} (h : b.Succeeded) :
    Settles pallets before (.inFinalizedBlock b) (.finalized b.hash none)
  | reverted {b : FinalBlock} {error : DispatchError} (h : b.Reverted error) :
    Settles pallets before (.inFinalizedBlock b) (.finalized b.hash (some (error.reason pallets)))
  | unknown {b : FinalBlock} (h : b.Unknown) :
    Settles pallets before (.inFinalizedBlock b) (.inBlock b.hash)
  | invalid (message : String) : Settles pallets before (.invalid message) (.invalid message)
  | dropped (message : String) : Settles pallets before (.dropped message) (.dropped message)
  | error (message : String) : Settles pallets before (.error message) before
  | broken (cause : String) : Settles pallets before (.broken cause) before
  | ended_pending (pending : before = .pending) :
    Settles pallets before .ended (.dropped Watch.endedEarly)
  | ended_included (included : before ≠ .pending) : Settles pallets before .ended before

namespace Settles

variable {pallets : List Pallet} {before s : Status} {p : Progress}
  (stands : before.resolve .finalized = none)
include stands

/-- A call that is settled as accepted succeeded in the reported block. -/
theorem of_accepted (h : Settles pallets before p s) {block : BlockHash}
    (told : (s.resolve .finalized).getD .timedOut = .accepted block) :
    ∃ b, p = .inFinalizedBlock b ∧ b.hash = block ∧ b.Succeeded := by
  cases h with
  | succeeded h =>
    cases told
    exact ⟨_, rfl, rfl, h⟩
  | _ => first | cases told | (rw [stands] at told; cases told)

/-- A call that is settled as failed was reverted in the reported block. -/
theorem of_failed (h : Settles pallets before p s) {reason : FailureReason}
    (told : (s.resolve .finalized).getD .timedOut = .failed reason) :
    ∃ b error, p = .inFinalizedBlock b ∧ b.Reverted error ∧ error.reason pallets = reason := by
  cases h with
  | reverted h =>
    cases told
    exact ⟨_, _, rfl, h, rfl⟩
  | _ => first | cases told | (rw [stands] at told; cases told)

theorem of_invalid (h : Settles pallets before p s) {message : String}
    (told : (s.resolve .finalized).getD .timedOut = .invalid message) : p = .invalid message := by
  cases h with
  | invalid message =>
    cases told
    rfl
  | _ => first | cases told | (rw [stands] at told; cases told)

/-- A call that is settled as dropped is reported so, or the reports end before it is in a block. -/
theorem of_dropped (h : Settles pallets before p s) {message : String}
    (told : (s.resolve .finalized).getD .timedOut = .dropped message) :
    p = .dropped message ∨ p = .ended ∧ message = Watch.endedEarly ∧ before = .pending := by
  cases h with
  | dropped message =>
    cases told
    exact Or.inl rfl
  | ended_pending pending =>
    cases told
    exact Or.inr ⟨rfl, rfl, pending⟩
  | _ => first | cases told | (rw [stands] at told; cases told)

end Settles

/-- Every final report settles the call. -/
theorem exists_settles (pallets : List Pallet) (before : Status) {p : Progress}
    (final : p.isFinal = true) : ∃ s, Settles pallets before p s := by
  cases p with
  | inFinalizedBlock b =>
    rcases b.succeeded_or with h | ⟨error, h⟩ | h
    · exact ⟨_, .succeeded h⟩
    · exact ⟨_, .reverted h⟩
    · exact ⟨_, .unknown h⟩
  | invalid message => exact ⟨_, .invalid message⟩
  | dropped message => exact ⟨_, .dropped message⟩
  | error message => exact ⟨_, .error message⟩
  | broken cause => exact ⟨_, .broken cause⟩
  | ended =>
    by_cases pending : before = .pending
    · exact ⟨_, .ended_pending pending⟩
    · exact ⟨_, .ended_included pending⟩
  | _ => cases final

theorem isClosing_told {check : SuccessCheck} {p : Progress} (opened : p.isFinal = false) :
    ∀ r ∈ p.told check, r.isClosing = false := by
  cases p with
  | validated => exact fun _ mem => absurd mem List.not_mem_nil
  | broadcast peers => exact fun _ mem => absurd mem List.not_mem_nil
  | inBestBlock block => exact List.forall_mem_singleton.mpr rfl
  | noLongerInBestBlock => exact List.forall_mem_singleton.mpr rfl
  | _ => cases opened

/-- Reports of which none is final tell nothing that closes a watch. -/
theorem isClosing_flatMap_told {check : SuccessCheck} {reports : List (Nat × Progress)}
    (opened : ∀ r ∈ reports, r.2.isFinal = false) :
    ∀ r ∈ reports.flatMap (fun r => r.2.told check), r.isClosing = false := by
  rw [List.forall_mem_flatMap]
  exact fun r mem => isClosing_told (opened r mem)

theorem standing_concat (reports : List Progress) (p : Progress) :
    standing (reports ++ [p]) = p.place?.getD (standing reports) := by
  rw [standing, List.filterMap_append, List.filterMap_cons, List.filterMap_nil]
  cases p.place? with
  | none => rw [List.append_nil]; rfl
  | some s => rw [List.getLast?_concat]; rfl

/-- Reports of which none is final leave the call where the last one that speaks of a best block
puts it. -/
theorem standing_flatMap_told (check : SuccessCheck) {reports : List (Nat × Progress)}
    (opened : ∀ r ∈ reports, r.2.isFinal = false) :
    Status.standing (reports.flatMap fun r => r.2.told check) = standing (reports.map (·.2)) := by
  induction reports using List.reverseRecOn with
  | nil => rfl
  | append_singleton reports r ih =>
    obtain ⟨at_, p⟩ := r
    have before := ih fun r mem => opened r (List.mem_append_left _ mem)
    have last : p.isFinal = false := opened (at_, p) (by simp)
    rw [List.flatMap_append, List.flatMap_singleton, List.map_append, List.map_singleton,
      standing_concat, ← before]
    cases p with
    | validated => exact congrArg Status.standing (List.append_nil _)
    | broadcast peers => exact congrArg Status.standing (List.append_nil _)
    | inBestBlock block => exact Status.standing_concat _ (.event (.inBlock block))
    | noLongerInBestBlock => exact Status.standing_concat _ (.event .retracted)
    | _ => cases last

theorem standing_eq (reports : List Progress) :
    standing reports = .pending ∨ ∃ block, standing reports = .inBlock block := by
  unfold standing
  cases last : (reports.filterMap place?).getLast? with
  | none => exact Or.inl rfl
  | some s =>
    obtain ⟨p, -, place⟩ := List.mem_filterMap.mp (List.mem_of_getLast? last)
    cases p with
    | inBestBlock block => exact Or.inr ⟨block, (Option.some.inj place).symm⟩
    | noLongerInBestBlock => exact Or.inl (Option.some.inj place).symm
    | _ => cases place

/-- A call on its way is not settled. -/
theorem resolve_standing (reports : List Progress) :
    (standing reports).resolve .finalized = none := by
  rcases standing_eq reports with pending | ⟨block, included⟩
  · rw [pending]
    rfl
  · rw [included]
    rfl

theorem ofEvents?_summary (table : ErrorTable) (events : List RuntimeEvent) :
    FailureReason.ofEvents? table (events.map RuntimeEvent.summary) = none := by
  have silent : (events.map RuntimeEvent.summary).filterMap ChainEvent.failure? = [] := by
    rw [List.filterMap_eq_nil_iff]
    intro e mem
    obtain ⟨e, -, rfl⟩ := List.mem_map.mp mem
    cases e with
    | extrinsicFailed error => rfl
    | named pallet variant =>
      simp only [RuntimeEvent.summary]
      split <;> rfl
  rw [FailureReason.ofEvents?, silent]
  rfl

variable {check : SuccessCheck} (sound : check.Sound) (pallets : List Pallet)
include sound

/-- **The composition.** Reports up to a final one, taken in through the feed, leave the call as the
final one settles it, and it is watched no longer. -/
theorem after_feed {before : List (Nat × Progress)} {r : Nat × Progress}
    (opened : ∀ r ∈ before, r.2.isFinal = false) (final : r.2.isFinal = true)
    (later : List (Nat × Progress)) {s : Status}
    (settles : Settles pallets (standing (before.map (·.2))) r.2 s) :
    Watch.after (Pallet.table pallets) {} ((feed check (before ++ r :: later)).map (·.2)) =
      { status := s, reading := false } := by
  obtain ⟨at_, p⟩ := r
  set moves := before.flatMap fun r => r.2.told check with moves_eq
  have moving : ∀ r ∈ moves, r.isClosing = false := isClosing_flatMap_told opened
  have stands : Status.standing moves = standing (before.map (·.2)) :=
    standing_flatMap_told check opened
  rw [feed_of_isFinal check opened final, ← moves_eq]
  -- in each case the report that closes the watch settles the status
  have closed : ∀ {closing : Report} {rest : List Report}, told check p ++ [.finished] =
      closing :: rest → closing.isClosing = true →
      Watch.after (Pallet.table pallets) {} (moves ++ (told check p ++ [.finished])) =
        { status := (standing (before.map (·.2))).closedBy (Pallet.table pallets) closing,
          reading := false } := by
    intro closing rest eq closes
    rw [eq, Watch.after_closed _ rest moving closes, stands]
  cases settles with
  | @succeeded b h =>
    obtain ⟨events, confirmed⟩ := sound.succeeded b h
    rw [closed (congrArg (· ++ [Report.finished]) (told_of_ok confirmed)) rfl, Status.closedBy,
      ofEvents?_summary]
  | @reverted b error h =>
    have denied := told_of_runtime (sound.reverted b error h)
    rw [closed (congrArg (· ++ [Report.finished]) denied) rfl, Status.closedBy,
      ← DispatchError.decode_failure]
    rfl
  | @unknown b h =>
    obtain ⟨cause, unconfirmed⟩ := sound.unknown b h
    -- the inclusion is one more move, and what closes is that the outcome is lost
    have included : ∀ r ∈ moves ++ [.event (.inBlock b.hash)], r.isClosing = false :=
      List.forall_mem_append.mpr ⟨moving, List.forall_mem_singleton.mpr rfl⟩
    rw [told_of_other unconfirmed, List.cons_append, List.append_cons, List.singleton_append,
      Watch.after_closed _ [.finished] included rfl, Status.standing_concat]
    rfl
  | invalid message => exact closed rfl rfl
  | dropped message => exact closed rfl rfl
  | error message => exact closed rfl rfl
  | broken cause => exact closed rfl rfl
  | ended_pending pending => rw [closed rfl rfl, Status.closedBy, if_pos pending]
  | ended_included included => rw [closed rfl rfl, Status.closedBy, if_neg included]

end Progress

/-! ### A wait that outlasts the feed -/

/-- A watch that says something at the finalized level reads no more. -/
theorem Watch.Sound.reading_of_verdict {w : Watch} (sound : w.Sound) {o : Outcome}
    (h : w.verdict .finalized = some o) : w.reading = false := by
  unfold Watch.verdict at h
  split at h
  · rename_i resolved
    exact sound (Status.isTerminal_of_resolve resolved)
  · split at h
    · cases h
    · rename_i stopped
      simpa using stopped

/-- A wait for a call to be final that outlasts the feed tells what the whole feed says. -/
theorem Watch.wait_of_due (table : ErrorTable) {deadline : Nat} {w : Watch} (sound : w.Sound)
    {feed : Feed} (due : ∀ entry ∈ feed, entry.1 ≤ deadline) (now : Nat) :
    (wait table .finalized deadline w feed now).1 =
      ((w.after table (feed.map (·.2))).verdict .finalized).getD .timedOut := by
  induction feed generalizing w now with
  | nil =>
    simp only [wait, List.map_nil, after_nil]
    cases w.verdict .finalized <;> rfl
  | cons head rest ih =>
    obtain ⟨at_, r⟩ := head
    rw [List.forall_mem_cons] at due
    simp only [wait, List.map_cons, after_cons]
    by_cases early : at_ ≤ now
    · rw [if_pos early, ih (sound_next table w r) due.2]
    · rw [if_neg early]
      cases told : w.verdict .finalized with
      | some o =>
        -- nothing is read any more, so the rest of the feed does not count
        rw [← after_cons, after_of_not_reading table (sound.reading_of_verdict told), told]
        rfl
      | none =>
        have timely : at_ ≤ deadline := due.1
        simp only [if_pos timely]
        exact ih (sound_next table w r) due.2 at_

/-- The same for a call that has taken in a part of its feed. -/
theorem Submission.wait_of_due (table : ErrorTable) {s : Submission} (fresh : s.watch = {})
    {now timeout : Nat} (due : ∀ entry ∈ s.feed, entry.1 ≤ now + timeout) (from_ : Nat) :
    ((s.settle table from_).wait table .finalized now timeout).1 =
      ((Watch.after table {} (s.feed.map (·.2))).verdict .finalized).getD .timedOut := by
  have sound : (s.settle table from_).watch.Sound :=
    (Submission.sound_of_fresh fresh).after table _
  have left : ∀ entry ∈ (s.settle table from_).feed, entry.1 ≤ now + timeout :=
    fun entry mem => due entry ((List.dropWhile_sublist _).subset mem)
  rw [Submission.wait, Watch.wait_of_due table sound left]
  simp only [Submission.settle, fresh]
  rw [← Watch.after_append, ← List.map_append, Feed.due, Feed.later,
    List.takeWhile_append_dropWhile]

namespace Progress

/-! ### What a wait tells -/

section Wait

variable {check : SuccessCheck} (sound : check.Sound) (pallets : List Pallet) {s : Submission}
  {reports : List (Nat × Progress)} {now timeout : Nat}

/-- Reports with a first final one, taken apart there. -/
theorem exists_of_find?_isFinal {p : Progress}
    (first : (reports.map (·.2)).find? isFinal = some p) :
    ∃ before at_ later, reports = before ++ (at_, p) :: later ∧ p.isFinal = true ∧
      (∀ r ∈ before, r.2.isFinal = false) ∧
      reports.takeWhile (fun r => !r.2.isFinal) = before := by
  rw [List.find?_map, Option.map_eq_some_iff] at first
  obtain ⟨⟨at_, _⟩, found, rfl⟩ := first
  obtain ⟨final, before, later, rfl, opened⟩ := List.find?_eq_some_iff_append.mp found
  have opened' : ∀ r ∈ before, r.2.isFinal = false := fun r mem => by simpa using opened r mem
  refine ⟨before, at_, later, rfl, final, opened', ?_⟩
  rw [List.takeWhile_append_of_pos (by simpa using opened'),
    List.takeWhile_cons_of_neg (by simpa using final), List.append_nil]

include sound

/-- A call whose reports hold a final one is left as the first such report settles it. -/
theorem after_feed_of_find? {p : Progress} {status : Status}
    (first : (reports.map (·.2)).find? isFinal = some p)
    (settles : Settles pallets
      (standing ((reports.takeWhile fun r => !r.2.isFinal).map (·.2))) p status) :
    Watch.after (Pallet.table pallets) {} ((feed check reports).map (·.2)) =
      { status, reading := false } := by
  obtain ⟨before, at_, later, rfl, final, opened, taken⟩ := exists_of_find?_isFinal first
  rw [taken] at settles
  exact after_feed sound pallets opened final later settles

/-- What somebody is told who waits long enough: what the status says as the first final report
settles it, and nothing if there is no final report. -/
theorem wait_eq_iff (fresh : s.watch = {}) (fed : s.feed = feed check reports)
    (long : ∀ r ∈ reports, r.1 ≤ now + timeout) (from_ : Nat) (o : Outcome) :
    ((s.settle (Pallet.table pallets) from_).wait (Pallet.table pallets) .finalized now
        timeout).1 = o ↔
      (∃ p status, (reports.map (·.2)).find? isFinal = some p ∧
        Settles pallets (standing ((reports.takeWhile fun r => !r.2.isFinal).map (·.2))) p status ∧
        (status.resolve .finalized).getD .timedOut = o) ∨
      (reports.map (·.2)).find? isFinal = none ∧ .timedOut = o := by
  have due : ∀ entry ∈ s.feed, entry.1 ≤ now + timeout := by
    intro entry mem
    obtain ⟨r, mem, eq⟩ := exists_of_mem_feed (fed ▸ mem)
    exact eq ▸ long r mem
  rw [Submission.wait_of_due _ fresh due from_, fed]
  -- all reports are taken in, and what they come to is told
  have settled : ∀ {p status}, (reports.map (·.2)).find? isFinal = some p →
      Settles pallets (standing ((reports.takeWhile fun r => !r.2.isFinal).map (·.2))) p status →
      ((Watch.after (Pallet.table pallets) {} ((feed check reports).map (·.2))).verdict
        .finalized).getD .timedOut = (status.resolve .finalized).getD .timedOut := by
    intro p status first settles
    rw [after_feed_of_find? sound pallets first settles, Watch.verdict]
    cases status.resolve .finalized <;> rfl
  cases first : (reports.map (·.2)).find? isFinal with
  | none =>
    have opened : ∀ r ∈ reports, r.2.isFinal = false := by simpa using first
    rw [feed_of_open check opened, Watch.after_open _ _ (isClosing_flatMap_told opened),
      standing_flatMap_told check opened, Watch.verdict, resolve_standing]
    simp
  | some p =>
    obtain ⟨-, -, -, -, final, -⟩ := exists_of_find?_isFinal first
    obtain ⟨status, settles⟩ := exists_settles pallets _ final
    constructor
    · intro told
      exact Or.inl ⟨p, status, rfl, settles, (settled first settles).symm.trans told⟩
    · rintro (⟨_, status, ⟨⟩, settles, told⟩ | ⟨⟨⟩, -⟩)
      exact (settled first settles).trans told

/-- **What the reports of a connection make of a wait.** The connection is sound, its reports come
in any order and number, and somebody waits for the call to be final until all of them have come.
The wait tells an acceptance just if the first final report is a final block in which the call
succeeded, and a failure just if it is one in which the call was reverted, with the first failure
decoded as the reason. If a final block keeps what became of the call, the call is left in that
block and the wait times out. Rejections and drops are told just if they are reported, or if the
reports end with the call pending. Reports behind the first final one change nothing. -/
theorem wait_feed (fresh : s.watch = {}) (fed : s.feed = feed check reports)
    (long : ∀ r ∈ reports, r.1 ≤ now + timeout) (from_ : Nat) :
    let table := Pallet.table pallets
    let first := (reports.map (·.2)).find? isFinal
    let told := ((s.settle table from_).wait table .finalized now timeout).1
    (∀ block, told = .accepted block ↔
        ∃ b, first = some (.inFinalizedBlock b) ∧ b.hash = block ∧ b.Succeeded) ∧
      (∀ reason, told = .failed reason ↔
        ∃ b error, first = some (.inFinalizedBlock b) ∧ b.Reverted error ∧
          error.reason pallets = reason) ∧
      (∀ b, first = some (.inFinalizedBlock b) → b.Unknown → told = .timedOut ∧
        ∀ m, (∀ r ∈ reports, r.1 ≤ m) → (s.settle table m).watch.status = .inBlock b.hash) ∧
      (∀ message, told = .invalid message ↔ first = some (.invalid message)) ∧
      (∀ message, told = .dropped message ↔ first = some (.dropped message) ∨
        first = some .ended ∧ message = Watch.endedEarly ∧
          standing ((reports.takeWhile fun r => !r.2.isFinal).map (·.2)) = .pending) ∧
      ∀ before r later, reports = before ++ r :: later → r.2.isFinal = true →
        ∀ later', watch check (before ++ r :: later') = watch check reports := by
  intro table first told
  have told_iff := wait_eq_iff sound pallets fresh fed long from_
  have stands := resolve_standing ((reports.takeWhile fun r => !r.2.isFinal).map (·.2))
  refine ⟨?_, ?_, ?_, ?_, ?_, ?_⟩
  -- a final block with the call in it has it accepted, failed or unknown
  · intro block
    refine (told_iff _).trans ⟨?_, ?_⟩
    · rintro (⟨p, status, first, settles, outcome⟩ | ⟨-, ⟨⟩⟩)
      obtain ⟨b, rfl, hash, succeeded⟩ := settles.of_accepted stands outcome
      exact ⟨b, first, hash, succeeded⟩
    · rintro ⟨b, first, rfl, succeeded⟩
      exact Or.inl ⟨_, _, first, .succeeded succeeded, rfl⟩
  · intro reason
    refine (told_iff _).trans ⟨?_, ?_⟩
    · rintro (⟨p, status, first, settles, outcome⟩ | ⟨-, ⟨⟩⟩)
      obtain ⟨b, error, rfl, reverted, decoded⟩ := settles.of_failed stands outcome
      exact ⟨b, error, first, reverted, decoded⟩
    · rintro ⟨b, error, first, reverted, rfl⟩
      exact Or.inl ⟨_, _, first, .reverted reverted, rfl⟩
  · intro b first unknown
    refine ⟨(told_iff .timedOut).mpr (Or.inl ⟨_, _, first, .unknown unknown, rfl⟩), ?_⟩
    intro m late
    have due : (s.feed.due m) = s.feed := by
      rw [Feed.due, List.takeWhile_eq_self_iff]
      intro entry mem
      obtain ⟨r, mem, eq⟩ := exists_of_mem_feed (fed ▸ mem)
      exact decide_eq_true (eq ▸ late r mem)
    rw [Submission.settle, fresh, due, fed,
      after_feed_of_find? sound pallets first (.unknown unknown)]
  -- a call that was turned down or dropped
  · intro message
    refine (told_iff _).trans ⟨?_, ?_⟩
    · rintro (⟨p, status, first, settles, outcome⟩ | ⟨-, ⟨⟩⟩)
      exact first.trans (congrArg some (settles.of_invalid stands outcome))
    · intro first
      exact Or.inl ⟨_, _, first, .invalid message, rfl⟩
  · intro message
    refine (told_iff _).trans ⟨?_, ?_⟩
    · rintro (⟨p, status, first, settles, outcome⟩ | ⟨-, ⟨⟩⟩)
      rcases settles.of_dropped stands outcome with rfl | ⟨rfl, rfl, pending⟩
      · exact Or.inl first
      · exact Or.inr ⟨first, rfl, pending⟩
    · rintro (first | ⟨first, rfl, pending⟩)
      · exact Or.inl ⟨_, _, first, .dropped message, rfl⟩
      · exact Or.inl ⟨_, _, first, .ended_pending pending, rfl⟩
  -- nobody reads behind the first final report
  · rintro before r later rfl final later'
    rw [watch_of_isFinal check before final later', watch_of_isFinal check before final later]

end Wait

/-- A call that leaves a best block and is reverted in the final one, with a garbled event and a
rejection behind the failure. The reason comes from the second and the first of its five bytes. -/
theorem wait_feed_reverted :
    let pallets : List Pallet := [{ name := "PwNftSale", index := 88, errors := [
      ⟨3, "NotEligible", ["The account is not eligible", "for this sale phase"]⟩] }]
    let block : FinalBlock := ⟨BlockHash.ofNat 2, .ok [.ok (.named "Balances" "Withdraw"),
      .ok (.extrinsicFailed (.pallet #v[88, 3, 0, 0, 0])), .error "unknown event"]⟩
    let reports : List (Nat × Progress) := [(0, .validated), (1, .inBestBlock (BlockHash.ofNat 1)),
      (2, .noLongerInBestBlock), (5, .inFinalizedBlock block), (6, .invalid "late")]
    let s : Submission :=
      { account := default, nonce := 0, serial := 0, feed := feed FinalBlock.check reports }
    ((s.settle (Pallet.table pallets) 1).wait (Pallet.table pallets) .finalized 3 10).1 =
      .failed (.pallet
        ⟨"pwNftSale", "NotEligible", "The account is not eligible for this sale phase"⟩) := by
  intro pallets block reports s
  obtain ⟨-, failed, -⟩ := @wait_feed FinalBlock.check FinalBlock.sound_check pallets s reports 3 10
    rfl rfl (by decide) 1
  exact (failed _).mpr ⟨block, .pallet #v[88, 3, 0, 0, 0], rfl,
    ⟨[.named "Balances" "Withdraw"], [.error "unknown event"], rfl, by decide⟩, by decide +kernel⟩

end Progress

end ShellSale
