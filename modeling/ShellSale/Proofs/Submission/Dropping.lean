import ShellSale.Proofs.Submission.Waiting

/-!
## When a call is recorded as dropped

A dropped call may be sent again, so the record is meant for calls that are in no block. Two reports
make it: an eviction that the node tells, and the end of a feed that leaves the call pending. The
second looks where the call stands, the first does not.

* `Watch.Drops` is the step that makes the record, `Watch.EvictsIncluded` the feed in which the node
  tells of an eviction straight after an inclusion.
* `Watch.drops_after_iff` says which reports drop a call.
* `Watch.drops_from_pending_iff` is the main result: calls are dropped from pending alone on just
  the feeds without such an eviction. Behind one the record stands, and every wait gives it out.
-/

namespace ShellSale

/-- Only a dropped call resolves as dropped. -/
theorem Status.eq_dropped_of_resolve {s : Status} {level : Level} {message : String}
    (h : s.resolve level = some (.dropped message)) : s = .dropped message := by
  cases s with
  | pending => cases h
  | inBlock block => cases level <;> cases h
  | finalized block failure => cases failure <;> cases h
  | invalid message => cases h
  | dropped message => cases h; rfl

namespace Watch

/-- A report on which a watch records its call as dropped. -/
def Drops (table : ErrorTable) (w : Watch) (r : Report) : Prop :=
  (∀ message, w.status ≠ .dropped message) ∧ ∃ message, (w.next table r).status = .dropped message

/-- While a watch reads, the node tells of the eviction of a call that it last told to be in a
block. -/
def EvictsIncluded (rs : List Report) : Prop :=
  ∃ before block message later, (∀ r ∈ before, r.isClosing = false) ∧
    rs = before ++ .event (.inBlock block) :: .event (.dropped message) :: later

/-! ### The reports that drop a call -/

/-- A watch that reads drops its call on an eviction wherever the call stands, and at the end of
the feed if the call is pending. -/
theorem drops_open_iff (table : ErrorTable) (rs : List Report) (r : Report) :
    Drops table { status := Status.standing rs, reading := true } r ↔
      (∃ message, r = .event (.dropped message)) ∨
        r = .finished ∧ Status.standing rs = .pending := by
  have undecided : ∀ message, Status.standing rs ≠ .dropped message := by
    intro message dropped
    rcases Status.standing_eq rs with pending | ⟨block, included⟩ <;> simp_all
  cases r with
  | finished =>
    rcases Status.standing_eq rs with pending | ⟨block, included⟩
    · simp [Drops, next, pending]
    · simp [Drops, next, included]
  | event e => cases e <;> simp [Drops, next, Status.ofEvent?, undecided]

/-- **The reports that drop a call.** -/
theorem drops_after_iff (table : ErrorTable) (rs : List Report) (r : Report) :
    Drops table (after table {} rs) r ↔
      (∀ r' ∈ rs, r'.isClosing = false) ∧
        ((∃ message, r = .event (.dropped message)) ∨
          r = .finished ∧ Status.standing rs = .pending) := by
  rcases exists_closing_or rs with ⟨before, closing, later, rfl, opened, closes⟩ | opened
  · -- nobody reads any more, so the status is what it was
    have stopped : (after table {} (before ++ closing :: later)).reading = false := by
      rw [after_closed table later opened closes]
    constructor
    · rintro ⟨new, message, dropped⟩
      rw [next_of_not_reading table stopped] at dropped
      exact absurd dropped (new message)
    · rintro ⟨opened', -⟩
      rw [opened' closing (by simp)] at closes
      cases closes
  · rw [after_open table rs opened, drops_open_iff, and_iff_right opened]

/-- A call that the watch has in a block was last reported to be in this block. -/
theorem eq_concat_of_standing {rs : List Report} {block : BlockHash}
    (h : Status.standing rs = .inBlock block) :
    ∃ before, rs = before ++ [.event (.inBlock block)] := by
  rcases List.eq_nil_or_concat rs with rfl | ⟨before, last, rfl⟩
  · cases h
  · rw [List.concat_eq_append, Status.standing_concat] at h
    split at h
    · cases h
      exact ⟨before, List.concat_eq_append⟩
    · cases h

/-- A call that a report drops is pending, or it was last reported to be in a block and the node
tells of its eviction. -/
theorem Drops.origin {table : ErrorTable} {before : List Report} {r : Report}
    (h : Drops table (after table {} before) r) :
    (after table {} before).status = .pending ∨
      ∃ start block message, (∀ r ∈ start, r.isClosing = false) ∧
        before = start ++ [.event (.inBlock block)] ∧ r = .event (.dropped message) := by
  obtain ⟨opened, evicted | ⟨-, pending⟩⟩ := (drops_after_iff table before r).mp h
  · obtain ⟨message, rfl⟩ := evicted
    rw [after_open table before opened]
    rcases Status.standing_eq before with pending | ⟨block, included⟩
    · exact Or.inl pending
    · obtain ⟨start, rfl⟩ := eq_concat_of_standing included
      exact Or.inr ⟨start, block, message, fun r mem => opened r (List.mem_append_left _ mem),
        rfl, rfl⟩
  · rw [after_open table before opened]
    exact Or.inl pending

/-- Every dropped call was dropped by one of the reports. -/
theorem exists_drops {table : ErrorTable} {rs : List Report} {message : String}
    (h : (after table {} rs).status = .dropped message) :
    ∃ before r later, rs = before ++ r :: later ∧ Drops table (after table {} before) r ∧
      (after table {} (before ++ [r])).status = .dropped message := by
  -- the induction goes back from the last report to the first one behind which the call is dropped
  induction rs using List.reverseRecOn with
  | nil => cases h
  | append_singleton rs r ih =>
    by_cases already : ∃ message, (after table {} rs).status = .dropped message
    · obtain ⟨message', dropped⟩ := already
      have terminal : (after table {} rs).status.isTerminal = true := by
        rw [dropped]
        rfl
      have still := (sound_new.after table rs).after_of_isTerminal table terminal [r]
      rw [after_append, still] at h
      obtain ⟨before, r', later, rfl, drops, told⟩ := ih h
      exact ⟨before, r', later ++ [r], by simp, drops, told⟩
    · refine ⟨rs, r, [], rfl, ⟨?_, message, ?_⟩, h⟩
      · simpa using already
      · rwa [after_append] at h

/-! ### The main result -/

/-- Behind the eviction of a call in a block the watch has it as dropped, for good. -/
theorem after_evictsIncluded (table : ErrorTable) {before : List Report} (block : BlockHash)
    (message : String) (later : List Report) (opened : ∀ r ∈ before, r.isClosing = false) :
    (after table {} (before ++ [.event (.inBlock block)])).status = .inBlock block ∧
      after table {} (before ++ .event (.inBlock block) :: .event (.dropped message) :: later) =
        { status := .dropped message, reading := false } := by
  have included : ∀ r ∈ before ++ [.event (.inBlock block)], r.isClosing = false :=
    List.forall_mem_append.mpr ⟨opened, List.forall_mem_singleton.mpr rfl⟩
  refine ⟨?_, ?_⟩
  · rw [after_open table _ included, Status.standing_concat]
  · rw [List.append_cons, after_closed table later included rfl]
    rfl

/-- The first eviction straight after an inclusion drops a call that is in a block. -/
theorem drops_evicted (table : ErrorTable) {before : List Report} (block : BlockHash)
    (message : String) (opened : ∀ r ∈ before, r.isClosing = false) :
    Drops table (after table {} (before ++ [.event (.inBlock block)]))
      (.event (.dropped message)) := by
  obtain ⟨included, dropped⟩ := after_evictsIncluded table block message [] opened
  refine ⟨by simp [included], message, ?_⟩
  rw [← after_nil table (next ..), ← after_cons, ← after_append, List.append_assoc]
  exact congrArg status dropped

/-- Whoever is told that a call was dropped has a call that was pending when it was dropped, or that
was last reported to be in a block and was evicted with these very words. -/
theorem origin_of_wait (table : ErrorTable) {s : Submission} {level : Level} {now timeout : Nat}
    {message : String} (fresh : s.watch = {})
    (told : (s.wait table level now timeout).1 = .dropped message) :
    ∃ before r later, s.feed.map (·.2) = before ++ r :: later ∧
      Drops table (after table {} before) r ∧
      ((after table {} before).status = .pending ∨
        ∃ start block, before = start ++ [.event (.inBlock block)] ∧
          r = .event (.dropped message)) := by
  have resolved := Submission.resolve_of_wait table
    (Prod.ext told rfl : s.wait table level now timeout = (.dropped message, _)) (by simp)
  -- what the wait saw last are the reports due when it ended
  set wake := (s.wait table level now timeout).2
  have dropped : (after table {} ((s.feed.due wake).map (·.2))).status = .dropped message := by
    have status := Status.eq_dropped_of_resolve resolved
    rwa [Submission.settle, fresh] at status
  obtain ⟨before, r, later, split, drops, last⟩ := exists_drops dropped
  refine ⟨before, r, later ++ (s.feed.later wake).map (·.2), ?_, drops, ?_⟩
  · rw [← List.cons_append, ← List.append_assoc, ← split, ← List.map_append, Feed.due, Feed.later,
      List.takeWhile_append_dropWhile]
  · refine drops.origin.imp_right ?_
    rintro ⟨start, block, message', opened, rfl, rfl⟩
    have words := (after_evictsIncluded table block message' [] opened).2
    rw [List.append_assoc, List.singleton_append, words] at last
    exact ⟨start, block, rfl, by rw [Status.dropped.inj last]⟩

/-- **Calls are dropped from pending, evictions apart.** For every feed: each report that drops the
call finds it pending, exactly if the node does not tell of an eviction straight after an inclusion.
The end of the feed never drops a call that is in a block. After an eviction behind an inclusion
every look at every level tells that the call was dropped, whatever is reported later; and whoever
waits for a call and is told so has a call that was pending when it was dropped, or that the node
evicted from the block that it had reported last. -/
theorem drops_from_pending_iff (table : ErrorTable) (rs : List Report) :
    ((∀ before r later, rs = before ++ r :: later → Drops table (after table {} before) r →
        (after table {} before).status = .pending) ↔ ¬EvictsIncluded rs) ∧
      (∀ block, (after table {} rs).status = .inBlock block →
        ¬Drops table (after table {} rs) .finished) ∧
      (∀ before block message later, (∀ r ∈ before, r.isClosing = false) →
        rs = before ++ .event (.inBlock block) :: .event (.dropped message) :: later →
        (after table {} (before ++ [.event (.inBlock block)])).status = .inBlock block ∧
          ∀ level more, (after table {} (rs ++ more)).verdict level = some (.dropped message)) ∧
      ∀ (s : Submission) level now timeout message, s.watch = {} → s.feed.map (·.2) = rs →
        (s.wait table level now timeout).1 = .dropped message →
        ∃ before r later, rs = before ++ r :: later ∧ Drops table (after table {} before) r ∧
          ((after table {} before).status = .pending ∨
            ∃ start block, before = start ++ [.event (.inBlock block)] ∧
              r = .event (.dropped message)) := by
  refine ⟨⟨?_, ?_⟩, ?_, ?_, ?_⟩
  · rintro law ⟨before, block, message, later, opened, rfl⟩
    -- the law would have the call pending when it is evicted, but it is in a block
    have included := (after_evictsIncluded table block message later opened).1
    have pending := law (before ++ [.event (.inBlock block)]) (.event (.dropped message)) later
      (List.append_cons ..) (drops_evicted table block message opened)
    rw [included] at pending
    cases pending
  · rintro none before r later rfl drops
    -- a call that is not pending is dropped only by an eviction from a block
    rcases drops.origin with pending | ⟨start, block, message, opened, rfl, rfl⟩
    · exact pending
    · exact absurd ⟨start, block, message, later, opened, (List.append_cons ..).symm⟩ none
  · intro block included drops
    rcases drops.origin with pending | ⟨-, -, message, -, -, evicted⟩
    · rw [included] at pending
      cases pending
    · cases evicted
  · rintro before block message later opened rfl
    refine ⟨(after_evictsIncluded table block message later opened).1, ?_⟩
    intro level more
    rw [List.append_assoc, List.cons_append, List.cons_append,
      (after_evictsIncluded table block message (later ++ more) opened).2]
    rfl
  · rintro s level now timeout message fresh rfl told
    exact origin_of_wait table fresh told

/-- A call that is reported to be in a block and then to be evicted: it is dropped while it is in
the block, and whoever waits for it to be final is told that it may be sent again. -/
theorem drops_from_pending_iff_evicted :
    let table : ErrorTable := fun _ _ => none
    let included : Report := .event (.inBlock (BlockHash.ofNat 1))
    let evicted : Report := .event (.dropped "evicted")
    ¬(∀ before r later, [included, evicted] = before ++ r :: later →
        Drops table (after table {} before) r → (after table {} before).status = .pending) ∧
      (after table {} [included]).status = .inBlock (BlockHash.ofNat 1) ∧
      (after table {} [included, evicted]).verdict .finalized = some (.dropped "evicted") := by
  intro table included evicted
  obtain ⟨law, -, behind, -⟩ := drops_from_pending_iff table [included, evicted]
  have opened : ∀ r ∈ ([] : List Report), r.isClosing = false := by simp
  obtain ⟨before, told⟩ := behind [] (BlockHash.ofNat 1) "evicted" [] opened rfl
  exact ⟨fun holds => law.mp holds ⟨[], BlockHash.ofNat 1, "evicted", [], opened, rfl⟩, before,
    told .finalized []⟩

end Watch

end ShellSale
