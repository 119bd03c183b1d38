import Mathlib.Order.Nat
import ShellSale.Pipeline.Tracker
import ShellSale.Proofs.Submission.Stream

/-!
## What a wait sees

A submission takes in its reports as time passes, and a wait is a recursion on the same feed. Both
come down to the reports that are due by a moment.

* `Submission.settle_settle`: it does not matter in how many steps time passes.
* `Watch.wait_eq_verdict`: the outcome of a wait is what the watch says at the moment at which the
  wait ends, and a timeout if it says nothing then.
* `Submission.finalized_of_waits`: of calls that are waited for one after the other at the finalized
  level, each with an acceptance, every one is final, was not reverted, and stays so.
-/

namespace ShellSale

namespace Feed

theorem due_cons_of_le {at_ now : Nat} (h : at_ ≤ now) (r : Report) (rest : Feed) :
    Feed.due ((at_, r) :: rest) now = (at_, r) :: Feed.due rest now :=
  List.takeWhile_cons_of_pos (by simpa using h)

theorem due_cons_of_lt {at_ now : Nat} (h : now < at_) (r : Report) (rest : Feed) :
    Feed.due ((at_, r) :: rest) now = [] :=
  List.takeWhile_cons_of_neg (by simpa using h)

theorem later_cons_of_le {at_ now : Nat} (h : at_ ≤ now) (r : Report) (rest : Feed) :
    Feed.later ((at_, r) :: rest) now = Feed.later rest now :=
  List.dropWhile_cons_of_pos (by simpa using h)

theorem later_cons_of_lt {at_ now : Nat} (h : now < at_) (r : Report) (rest : Feed) :
    Feed.later ((at_, r) :: rest) now = (at_, r) :: rest :=
  List.dropWhile_cons_of_neg (by simpa using h)

/-- The reports due by a moment are those due earlier and then those due since. -/
theorem due_eq_append {now later : Nat} (h : now ≤ later) (feed : Feed) :
    feed.due later = feed.due now ++ (feed.later now).due later := by
  induction feed with
  | nil => rfl
  | cons head rest ih =>
    obtain ⟨at_, r⟩ := head
    by_cases early : at_ ≤ now
    · rw [due_cons_of_le early, later_cons_of_le early, due_cons_of_le (early.trans h), ih,
        List.cons_append]
    · have late : now < at_ := Nat.lt_of_not_le early
      rw [due_cons_of_lt late, later_cons_of_lt late, List.nil_append]

theorem later_later {now later : Nat} (h : now ≤ later) (feed : Feed) :
    (feed.later now).later later = feed.later later := by
  induction feed with
  | nil => rfl
  | cons head rest ih =>
    obtain ⟨at_, r⟩ := head
    by_cases early : at_ ≤ now
    · rw [later_cons_of_le early, later_cons_of_le (early.trans h), ih]
    · rw [later_cons_of_lt (Nat.lt_of_not_le early)]

end Feed

namespace Submission

/-- Taking the reports due by a moment in two steps is the same as taking them at once. -/
theorem settle_settle (table : ErrorTable) {now later : Nat} (h : now ≤ later) (s : Submission) :
    (s.settle table now).settle table later = s.settle table later := by
  simp only [settle, Feed.due_eq_append h s.feed, List.map_append, Watch.after_append,
    Feed.later_later h, List.contains_append, Bool.or_assoc]

end Submission

namespace Watch

/-- A verdict other than a timeout is the outcome of the status. -/
theorem resolve_of_verdict {w : Watch} {level : Level} {o : Outcome} (h : w.verdict level = some o)
    (ne : o ≠ .timedOut) : w.status.resolve level = some o := by
  unfold verdict at h
  split at h
  · rename_i outcome resolved
    rw [resolved, h]
  · split at h
    · cases h
    · exact absurd (Option.some.inj h).symm ne

/-- The outcome of a wait is what the watch says when the wait ends. -/
theorem wait_eq_verdict (table : ErrorTable) (level : Level) (deadline : Nat) (w : Watch)
    (feed : Feed) (now : Nat) (h : now ≤ deadline) :
    let ended := wait table level deadline w feed now
    ended.1 = ((w.after table ((feed.due ended.2).map (·.2))).verdict level).getD .timedOut := by
  induction feed generalizing w now with
  | nil =>
    simp only [wait, Feed.due, List.takeWhile_nil, List.map_nil, after_nil]
    cases w.verdict level <;> rfl
  | cons head rest ih =>
    obtain ⟨at_, r⟩ := head
    simp only [wait]
    by_cases due : at_ ≤ now
    · -- the report is due at once: the wait goes on behind it
      rw [if_pos due]
      have bounds := wait_bounds table level deadline (w.next table r) rest now h
      rw [ih (w.next table r) now h, Feed.due_cons_of_le (due.trans bounds.1), List.map_cons,
        after_cons]
    · rw [if_neg due]
      cases told : w.verdict level with
      | some outcome =>
        simp only [Feed.due_cons_of_lt (Nat.lt_of_not_le due), List.map_nil, after_nil, told]
        rfl
      | none =>
        by_cases timely : at_ ≤ deadline
        · -- nothing yet: the wait goes on at the moment of the report
          rw [if_pos timely]
          have bounds := wait_bounds table level deadline (w.next table r) rest at_ timely
          rw [ih (w.next table r) at_ timely, Feed.due_cons_of_le bounds.1, List.map_cons,
            after_cons]
        · have missed : max now deadline < at_ := by omega
          simp only [if_neg timely, Feed.due_cons_of_lt missed, List.map_nil, after_nil, told]
          rfl

end Watch

namespace Submission

/-- A submission that has not taken any report yet is sound. -/
theorem sound_of_fresh {s : Submission} (fresh : s.watch = {}) : s.watch.Sound := by
  rw [fresh]
  exact Watch.sound_new

/-- An accepted call has the status that its wait resolved, at the end of the wait. -/
theorem resolve_of_wait (table : ErrorTable) {level : Level} {now timeout wake : Nat}
    {s : Submission} {o : Outcome} (h : s.wait table level now timeout = (o, wake))
    (ne : o ≠ .timedOut) : (s.settle table wake).watch.status.resolve level = some o := by
  have said := Watch.wait_eq_verdict table level (now + timeout) s.watch s.feed now (by omega)
  unfold wait at h
  simp only [h] at said
  cases told : (s.watch.after table ((s.feed.due wake).map (·.2))).verdict level with
  | none =>
    rw [told] at said
    exact absurd said ne
  | some outcome =>
    rw [told] at said
    exact Watch.resolve_of_verdict (told.trans (congrArg some said.symm)) ne

/-- A wait ends between its start and its deadline. -/
theorem wait_bounds (table : ErrorTable) (level : Level) (now timeout : Nat) (s : Submission) :
    now ≤ (s.wait table level now timeout).2 ∧
      (s.wait table level now timeout).2 ≤ now + timeout :=
  Watch.wait_bounds table level (now + timeout) s.watch s.feed now (by omega)

/-- A terminal status outlasts all that comes later. -/
theorem status_settle_of_isTerminal (table : ErrorTable) {wake now : Nat} {s : Submission}
    (sound : s.watch.Sound) (le : wake ≤ now)
    (terminal : (s.settle table wake).watch.status.isTerminal = true) :
    (s.settle table now).watch.status = (s.settle table wake).watch.status := by
  rw [← settle_settle table le s]
  exact congrArg Watch.status ((sound.after table _).after_of_isTerminal table terminal _)

/-- A submission whose status is terminal keeps it, whatever is reported. -/
theorem status_settle_self (table : ErrorTable) {s : Submission} (sound : s.watch.Sound)
    (terminal : s.watch.status.isTerminal = true) (now : Nat) :
    (s.settle table now).watch.status = s.watch.status :=
  congrArg Watch.status (sound.after_of_isTerminal table terminal _)

/-- A call accepted at the finalized level is final and was not reverted, from the end of its wait
on. -/
theorem finalized_of_wait (table : ErrorTable) {from_ timeout now : Nat} {s : Submission}
    (sound : s.watch.Sound) (accepted : (s.wait table .finalized from_ timeout).1.isAccepted = true)
    (le : (s.wait table .finalized from_ timeout).2 ≤ now) :
    ∃ block, (s.settle table now).watch.status = .finalized block none := by
  cases told : s.wait table .finalized from_ timeout with
  | mk o wake =>
    rw [told] at accepted le
    have ne : o ≠ .timedOut := by
      rintro rfl
      cases accepted
    have resolved := resolve_of_wait table told ne
    have terminal := Status.isTerminal_of_resolve resolved
    rw [status_settle_of_isTerminal table sound le terminal]
    cases status : (s.settle table wake).watch.status with
    | finalized block failure =>
      rw [status] at resolved
      cases failure with
      | none => exact ⟨block, rfl⟩
      | some reason =>
        cases resolved
        cases accepted
    | pending => rw [status] at terminal; cases terminal
    | inBlock block => rw [status] at terminal; cases terminal
    | invalid message => rw [status] at resolved; cases resolved; cases accepted
    | dropped message => rw [status] at resolved; cases resolved; cases accepted

/-- A wait for a call on which there is one report, that it is final and was not reverted, ends with
an acceptance if the report comes in time. -/
theorem isAccepted_wait_of_final (table : ErrorTable) {s : Submission} (fresh : s.watch = {})
    {at_ : Nat} {block : BlockHash} {events : List ChainEvent}
    (feed : s.feed = [(at_, .event (.finalized block events))])
    (fine : table.reason? events = none) (level : Level) {now timeout : Nat}
    (timely : at_ ≤ now + timeout) : (s.wait table level now timeout).1.isAccepted = true := by
  have told : Watch.next table {} (.event (.finalized block events)) =
      ⟨.finalized block none, false⟩ := by
    simp [Watch.next, Status.ofEvent?, fine, Status.isTerminal]
  rw [wait, fresh, feed, Watch.wait, told, if_pos timely]
  split
  · rfl
  · rfl

/-! ### Waits one after the other -/

/-- Waits for calls one after the other: each wait starts when the one before has ended. -/
def waits (table : ErrorTable) (level : Level) (timeout : Nat) :
    Nat → List Submission → List (Outcome × Nat)
  | _, [] => []
  | now, s :: rest =>
    let ended := s.wait table level now timeout
    ended :: waits table level timeout ended.2 rest

/-- When the last of some waits ends. -/
def waitsEnd (table : ErrorTable) (level : Level) (timeout : Nat) : Nat → List Submission → Nat
  | now, [] => now
  | now, s :: rest => waitsEnd table level timeout (s.wait table level now timeout).2 rest

variable (table : ErrorTable) (level : Level) (timeout : Nat)

theorem waits_concat (now : Nat) (subs : List Submission) (s : Submission) :
    waits table level timeout now (subs ++ [s]) =
      waits table level timeout now subs ++
        [s.wait table level (waitsEnd table level timeout now subs) timeout] := by
  induction subs generalizing now with
  | nil => rfl
  | cons first rest ih => rw [List.cons_append, waits, ih, waits, waitsEnd, List.cons_append]

theorem waitsEnd_concat (now : Nat) (subs : List Submission) (s : Submission) :
    waitsEnd table level timeout now (subs ++ [s]) =
      (s.wait table level (waitsEnd table level timeout now subs) timeout).2 := by
  induction subs generalizing now with
  | nil => rfl
  | cons first rest ih => rw [List.cons_append, waitsEnd, ih, waitsEnd]

theorem le_waitsEnd (now : Nat) (subs : List Submission) :
    now ≤ waitsEnd table level timeout now subs := by
  induction subs generalizing now with
  | nil => exact Nat.le_refl now
  | cons s rest ih => exact (s.wait_bounds table level now timeout).1.trans (ih _)

/-- Calls that were all accepted at the finalized level are final and were not reverted, from the
end of the last wait on. -/
theorem finalized_of_waits {start now : Nat} {subs : List Submission}
    (fresh : ∀ s ∈ subs, s.watch = {})
    (accepted : ∀ o ∈ waits table .finalized timeout start subs, o.1.isAccepted = true)
    (le : waitsEnd table .finalized timeout start subs ≤ now) :
    ∀ s ∈ subs, ∃ block, (s.settle table now).watch.status = .finalized block none := by
  induction subs generalizing start with
  | nil => simp
  | cons first rest ih =>
    rw [waits, List.forall_mem_cons] at accepted
    rw [List.forall_mem_cons] at fresh ⊢
    refine ⟨?_, ih fresh.2 accepted.2 le⟩
    exact finalized_of_wait table (sound_of_fresh fresh.1) accepted.1 ((le_waitsEnd ..).trans le)

end Submission

end ShellSale
