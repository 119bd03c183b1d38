import ShellSale.Submission.Watch

/-!
# Waiting for an outcome

Whoever waits looks at the watch at every moment from the start of the wait to its deadline, both
included, after all reports due at that moment have been taken; the first verdict ends the wait,
and without one it ends at the deadline with a timeout. The moments at which the watch can change
are those of the feed, so the wait is a recursion on the feed.
-/

namespace ShellSale

namespace Feed

/-- The reports delivered by `now`. -/
def due (feed : Feed) (now : Nat) : List (Nat × Report) :=
  feed.takeWhile fun entry => entry.1 ≤ now

/-- The feed after `now`. -/
def later (feed : Feed) (now : Nat) : Feed :=
  feed.dropWhile fun entry => entry.1 ≤ now

end Feed

namespace Watch

/-- The outcome of a wait that looks first at `now`, and the moment at which it ends. -/
def wait (table : ErrorTable) (level : Level) (deadline : Nat) : Watch → Feed → Nat → Outcome × Nat
  | w, [], now =>
    match w.verdict level with
    | some outcome => (outcome, now)
    | none => (.timedOut, max now deadline)
  | w, (at_, r) :: rest, now =>
    if at_ ≤ now then wait table level deadline (w.next table r) rest now
    else
      match w.verdict level with
      | some outcome => (outcome, now)
      | none =>
        if at_ ≤ deadline then wait table level deadline (w.next table r) rest at_
        else (.timedOut, max now deadline)

/-- A wait ends between its start and its deadline. -/
theorem wait_bounds (table : ErrorTable) (level : Level) (deadline : Nat) (w : Watch) (feed : Feed)
    (now : Nat) (h : now ≤ deadline) :
    now ≤ (wait table level deadline w feed now).2 ∧
      (wait table level deadline w feed now).2 ≤ deadline := by
  induction feed generalizing w now with
  | nil =>
    unfold wait
    split <;> simp_all
  | cons head rest ih =>
    obtain ⟨at_, r⟩ := head
    unfold wait
    split
    · exact ih _ _ h
    · split
      · exact ⟨Nat.le_refl _, h⟩
      · split
        · rename_i late _ _ due
          exact ⟨by have := (ih (w.next table r) at_ due).1; omega, (ih _ _ due).2⟩
        · exact ⟨Nat.le_max_left .., by omega⟩

end Watch

end ShellSale
