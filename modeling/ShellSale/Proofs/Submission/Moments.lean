import Mathlib.Order.Bounds.Basic
import ShellSale.Proofs.Submission.Waiting

/-!
## When a wait ends, and with what

A watch that changes as time passes is a function `seen` from moments to watches. `Watch.Ends` says
of such a function, without any recursion, how a wait from a start to a deadline ends: at the first
moment whose status yields an outcome, with that outcome; and if there is none, with a timeout, at
the deadline or at the first moment from the start on at which nobody reads on.

* `Watch.Ends.unique`: a wait ends in one way only.
* `Watch.Looks` is the same look by look. The recursion on the feed computes it
  (`Submission.looks_wait`), a wait cut into parts keeps it (`Submission.looks_settle`), and
  `Watch.Looks.closed` says what becomes of it when nobody watches on.
* `Watch.Looks.ends`: as a watch that nobody reads never changes, the one implies the other.
-/

namespace ShellSale

namespace Watch

/-- How a wait that sees the watches `seen` from `start` to `deadline` ends. -/
inductive Ends (seen : Nat → Watch) (level : Level) (start deadline : Nat) : Outcome → Nat → Prop
  | resolved {o : Outcome} {at_ : Nat}
    (least : IsLeast {m | start ≤ m ∧ m ≤ deadline ∧ (seen m).status.resolve level ≠ none} at_)
    (told : (seen at_).status.resolve level = some o) : Ends seen level start deadline o at_
  | gaveUp {at_ : Nat}
    (silent : ∀ m, start ≤ m → m ≤ deadline → (seen m).status.resolve level = none)
    (least : IsLeast {m | start ≤ m ∧ (m = deadline ∨ (seen m).reading = false)} at_) :
    Ends seen level start deadline .timedOut at_

/-- Watches that never change once nobody reads. -/
def Frozen (seen : Nat → Watch) : Prop :=
  ∀ m m', m ≤ m' → (seen m).reading = false → seen m' = seen m

/-- A wait look by look: nothing is said before `at_`, and there a look says `o`, or the deadline
has come. -/
structure Looks (seen : Nat → Watch) (level : Level) (start deadline : Nat) (o : Outcome)
    (at_ : Nat) : Prop where
  from_ : start ≤ at_
  by_ : at_ ≤ deadline
  silent : ∀ m, start ≤ m → m < at_ → (seen m).verdict level = none
  told : (seen at_).verdict level = some o ∨
    (seen at_).verdict level = none ∧ at_ = deadline ∧ o = .timedOut

/-- The watches of somebody who stops to watch at a moment, after the reports due then. -/
def closedAt (seen : Nat → Watch) (c m : Nat) : Watch :=
  if m < c then seen m else (seen c).cut

/-! ### What a look says -/

theorem verdict_of_resolve {w : Watch} {level : Level} {o : Outcome}
    (h : w.status.resolve level = some o) : w.verdict level = some o := by
  rw [verdict, h]

theorem verdict_eq_none_iff {w : Watch} {level : Level} :
    w.verdict level = none ↔ w.status.resolve level = none ∧ w.reading = true := by
  unfold verdict
  cases w.status.resolve level with
  | some outcome => simp
  | none => cases w.reading <;> simp

/-- A look says `o` as the status yields it, or gives up as nobody reads. -/
theorem verdict_eq_some_iff {w : Watch} {level : Level} {o : Outcome} :
    w.verdict level = some o ↔ w.status.resolve level = some o ∨
      w.status.resolve level = none ∧ w.reading = false ∧ o = .timedOut := by
  unfold verdict
  cases w.status.resolve level with
  | some outcome => simp
  | none => cases w.reading <;> simp [eq_comm]

theorem verdict_cut {w : Watch} {level : Level} :
    w.cut.verdict level = some ((w.status.resolve level).getD .timedOut) := by
  unfold verdict cut
  cases w.status.resolve level <;> rfl

/-! ### Ends -/

namespace Ends

variable {seen : Nat → Watch} {level : Level} {start deadline : Nat} {o o' : Outcome}
  {at_ at_' : Nat}

/-- A wait ends in one way only. -/
theorem unique (h : Ends seen level start deadline o at_)
    (h' : Ends seen level start deadline o' at_') : o = o' ∧ at_ = at_' := by
  cases h with
  | resolved least told =>
    cases h' with
    | resolved least' told' =>
      obtain rfl := least.unique least'
      exact ⟨Option.some.inj (told.symm.trans told'), rfl⟩
    | gaveUp silent _ =>
      obtain ⟨from_, by_, ne⟩ := least.1
      exact absurd (silent _ from_ by_) ne
  | gaveUp silent least =>
    cases h' with
    | resolved least' _ =>
      obtain ⟨from_, by_, ne⟩ := least'.1
      exact absurd (silent _ from_ by_) ne
    | gaveUp _ least' => exact ⟨rfl, least.unique least'⟩

/-- An outcome other than a timeout comes just so under any later deadline. -/
theorem of_le (h : Ends seen level start deadline o at_) (ne : o ≠ .timedOut) {later : Nat}
    (le : deadline ≤ later) : Ends seen level start later o at_ := by
  cases h with
  | gaveUp => exact absurd rfl ne
  | resolved least told =>
    refine .resolved ⟨⟨least.1.1, least.1.2.1.trans le, least.1.2.2⟩, ?_⟩ told
    rintro m ⟨from_, -, resolves⟩
    by_contra early
    -- a moment before `at_` is within the earlier deadline, too
    have by_ : m ≤ deadline := (Nat.le_of_lt (Nat.lt_of_not_le early)).trans least.1.2.1
    exact early (least.2 ⟨from_, by_, resolves⟩)

end Ends

/-! ### Looks -/

namespace Looks

variable {seen seen' : Nat → Watch} {level : Level} {start deadline : Nat} {o o' : Outcome}
  {at_ at_' : Nat}

/-- A wait that the first look ends. -/
theorem at_once (le : start ≤ deadline) (told : (seen start).verdict level = some o) :
    Looks seen level start deadline o start where
  from_ := Nat.le_refl start
  by_ := le
  silent _ from_ early := absurd from_ (Nat.not_le_of_lt early)
  told := Or.inl told

/-- A wait that only the deadline ends. -/
theorem at_deadline (le : start ≤ deadline)
    (silent : ∀ m, start ≤ m → m ≤ deadline → (seen m).verdict level = none) :
    Looks seen level start deadline .timedOut (max start deadline) := by
  rw [max_eq_right le]
  exact {
    from_ := le
    by_ := Nat.le_refl deadline
    silent := fun m from_ early => silent m from_ early.le
    told := Or.inr ⟨silent deadline le (Nat.le_refl _), rfl, rfl⟩ }

theorem unique (h : Looks seen level start deadline o at_)
    (h' : Looks seen level start deadline o' at_') : o = o' ∧ at_ = at_' := by
  have same : at_ = at_' := by
    -- the later of the two would have passed over what the earlier was told
    rcases Nat.lt_trichotomy at_ at_' with lt | eq | lt
    · rcases h.told with told | ⟨-, due, -⟩
      · rw [h'.silent at_ h.from_ lt] at told
        cases told
      · have := h'.by_
        omega
    · exact eq
    · rcases h'.told with told | ⟨-, due, -⟩
      · rw [h.silent at_' h'.from_ lt] at told
        cases told
      · have := h.by_
        omega
  subst same
  refine ⟨?_, rfl⟩
  rcases h.told with told | ⟨none, -, rfl⟩ <;> rcases h'.told with told' | ⟨none', -, rfl⟩
  · exact Option.some.inj (told.symm.trans told')
  · rw [none'] at told
    cases told
  · rw [none] at told'
    cases told'
  · rfl

/-- **From looks to moments.** A wait that ends look by look ends as its moments say. -/
theorem ends (frozen : Frozen seen) (h : Looks seen level start deadline o at_) :
    Ends seen level start deadline o at_ := by
  have unresolved : ∀ m, start ≤ m → m < at_ → (seen m).status.resolve level = none :=
    fun m from_ early => (verdict_eq_none_iff.mp (h.silent m from_ early)).1
  have reading : ∀ m, start ≤ m → m < at_ → (seen m).reading = true :=
    fun m from_ early => (verdict_eq_none_iff.mp (h.silent m from_ early)).2
  cases resolve : (seen at_).status.resolve level with
  | some outcome =>
    have told : o = outcome := by
      -- something is told at the end, so it is what the status yields
      rcases h.told with told | ⟨none, -, -⟩
      · exact Option.some.inj (told.symm.trans (verdict_of_resolve resolve))
      · rw [verdict_of_resolve resolve] at none
        cases none
    subst told
    refine .resolved ⟨⟨h.from_, h.by_, by simp [resolve]⟩, ?_⟩ resolve
    rintro m ⟨from_, -, ne⟩
    by_contra early
    exact ne (unresolved m from_ (Nat.lt_of_not_le early))
  | none =>
    -- the status yields nothing, so the wait has reached the deadline or nobody reads on
    have stop : o = .timedOut ∧ (at_ = deadline ∨ (seen at_).reading = false) := by
      rcases h.told with told | ⟨-, due, timedOut⟩
      · rcases verdict_eq_some_iff.mp told with some | ⟨-, stopped, timedOut⟩
        · rw [resolve] at some
          cases some
        · exact ⟨timedOut, Or.inr stopped⟩
      · exact ⟨timedOut, Or.inl due⟩
    obtain ⟨rfl, stop⟩ := stop
    refine .gaveUp ?_ ⟨⟨h.from_, stop⟩, ?_⟩
    · intro m from_ by_
      by_cases early : m < at_
      · exact unresolved m from_ early
      · -- nothing changes from `at_` on: it is the deadline, or nobody reads
        have late : at_ ≤ m := Nat.le_of_not_lt early
        rcases stop with due | stopped
        · have same : m = at_ := by omega
          rw [same, resolve]
        · rw [frozen at_ m late stopped, resolve]
    · rintro m ⟨from_, due | stopped⟩
      · have := h.by_
        omega
      · by_contra early
        rw [reading m from_ (Nat.lt_of_not_le early)] at stopped
        cases stopped

/-- Only the watches from the start on count. -/
theorem congr (h : Looks seen level start deadline o at_) (eq : ∀ m, start ≤ m → seen' m = seen m) :
    Looks seen' level start deadline o at_ where
  from_ := h.from_
  by_ := h.by_
  silent m from_ early := by rw [eq m from_, h.silent m from_ early]
  told := by
    rw [eq at_ h.from_]
    exact h.told

/-- A wait goes on from a moment before its end as from its start. -/
theorem later (h : Looks seen level start deadline o at_) {mid : Nat} (from_ : start ≤ mid)
    (early : mid ≤ at_) : Looks seen level mid deadline o at_ where
  from_ := early
  by_ := h.by_
  silent m le := h.silent m (from_.trans le)
  told := h.told

/-- A wait goes as one that starts later, if nothing is said before. -/
theorem earlier {mid : Nat} (h : Looks seen level mid deadline o at_) (le : start ≤ mid)
    (silent : ∀ m, start ≤ m → m < mid → (seen m).verdict level = none) :
    Looks seen level start deadline o at_ where
  from_ := le.trans h.from_
  by_ := h.by_
  silent m from_ early := by
    by_cases before : m < mid
    · exact silent m from_ before
    · exact h.silent m (Nat.le_of_not_lt before) early
  told := h.told

/-- A wait of somebody who watches on until its end is not touched. -/
theorem closedAt_of_le (h : Looks seen level start deadline o at_) {c : Nat} (le : at_ ≤ c) :
    Looks (closedAt seen c) level start deadline o at_ where
  from_ := h.from_
  by_ := h.by_
  silent m from_ early := by
    rw [closedAt, if_pos (early.trans_le le), h.silent m from_ early]
  told := by
    unfold closedAt
    split
    · exact h.told
    · have same : at_ = c := by omega
      subst same
      rw [verdict_cut]
      left
      rcases h.told with told | ⟨none, -, rfl⟩
      · rcases verdict_eq_some_iff.mp told with some | ⟨none, -, rfl⟩
        · rw [some, Option.getD_some]
        · rw [none, Option.getD_none]
      · rw [(verdict_eq_none_iff.mp none).1, Option.getD_none]

/-- A wait that is not over when nobody watches on gives up at once. -/
theorem closed (h : Looks seen level start deadline o at_) {c : Nat} (from_ : start ≤ c)
    (lt : c < at_) : Looks (closedAt seen c) level start deadline .timedOut c where
  from_ := from_
  by_ := lt.le.trans h.by_
  silent m from_ early := by
    rw [closedAt, if_pos early, h.silent m from_ (early.trans lt)]
  told := by
    have silent := (verdict_eq_none_iff.mp (h.silent c from_ lt)).1
    rw [closedAt, if_neg (Nat.lt_irrefl c), verdict_cut, silent, Option.getD_none]
    exact Or.inl rfl

end Looks

theorem Frozen.closedAt {seen : Nat → Watch} (h : Frozen seen) (c : Nat) :
    Frozen (closedAt seen c) := by
  intro m m' le stopped
  unfold Watch.closedAt at stopped ⊢
  by_cases early : m < c
  · rw [if_pos early] at stopped
    by_cases early' : m' < c
    · rw [if_pos early', if_pos early, h m m' le stopped]
    · have eq := h m c early.le stopped
      rw [if_neg early', if_pos early, eq]
      cases w : seen m
      rw [w] at stopped
      obtain rfl : _ = false := stopped
      rfl
  · rw [if_neg early, if_neg (by omega)]

/-! ### The recursion on the feed -/

/-- The wait of a watch with a feed ends look by look. -/
theorem looks_wait (table : ErrorTable) (level : Level) (deadline : Nat) (w : Watch) (feed : Feed)
    (now : Nat) (le : now ≤ deadline) :
    Looks (fun m => w.after table ((feed.due m).map (·.2))) level now deadline
      (wait table level deadline w feed now).1 (wait table level deadline w feed now).2 := by
  induction feed generalizing w now with
  | nil =>
    unfold wait
    cases told : w.verdict level with
    | some outcome => exact .at_once le told
    | none => exact .at_deadline le fun _ _ _ => told
  | cons head rest ih =>
    obtain ⟨at_, r⟩ := head
    have before : ∀ m, m < at_ →
        w.after table ((Feed.due ((at_, r) :: rest) m).map (·.2)) = w := by
      intro m early
      rw [Feed.due_cons_of_lt early, List.map_nil, after_nil]
    have behind : ∀ m, at_ ≤ m → w.after table ((Feed.due ((at_, r) :: rest) m).map (·.2)) =
        (w.next table r).after table ((Feed.due rest m).map (·.2)) := by
      intro m late
      rw [Feed.due_cons_of_le late, List.map_cons, after_cons]
    unfold wait
    by_cases due : at_ ≤ now
    · -- the report is due at once: the wait goes on behind it
      rw [if_pos due]
      exact (ih (w.next table r) now le).congr fun m from_ => behind m (due.trans from_)
    · have ahead : now < at_ := Nat.lt_of_not_le due
      rw [if_neg due]
      cases told : w.verdict level with
      | some outcome =>
        refine .at_once le ?_
        rw [before now ahead, told]
      | none =>
        by_cases timely : at_ ≤ deadline
        · -- nothing is said until the report comes, and from there the wait goes on behind it
          rw [if_pos timely]
          refine ((ih (w.next table r) at_ timely).congr behind).earlier ahead.le ?_
          intro m _ early
          rw [before m early, told]
        · rw [if_neg timely]
          refine .at_deadline le ?_
          intro m _ by_
          rw [before m (by_.trans_lt (Nat.lt_of_not_le timely)), told]

end Watch

namespace Submission

/-- The watch of a submission at a moment to come. -/
def watchAt (table : ErrorTable) (s : Submission) (m : Nat) : Watch :=
  (s.settle table m).watch

variable (table : ErrorTable) (s : Submission)

theorem frozen_watchAt : Watch.Frozen (s.watchAt table) := by
  intro m m' le stopped
  rw [watchAt, ← settle_settle table le s]
  exact Watch.after_of_not_reading table stopped _

theorem looks_wait (level : Level) (now timeout : Nat) :
    Watch.Looks (s.watchAt table) level now (now + timeout) (s.wait table level now timeout).1
      (s.wait table level now timeout).2 :=
  Watch.looks_wait table level (now + timeout) s.watch s.feed now (Nat.le_add_right ..)

/-- The wait for a submission, by its moments. -/
theorem ends_wait (level : Level) (now timeout : Nat) :
    Watch.Ends (s.watchAt table) level now (now + timeout) (s.wait table level now timeout).1
      (s.wait table level now timeout).2 :=
  (s.looks_wait table level now timeout).ends (s.frozen_watchAt table)

/-- A wait that ends look by look is what the recursion computes. -/
theorem wait_of_looks {level : Level} {now deadline wake : Nat} {o : Outcome}
    (h : Watch.Looks (s.watchAt table) level now deadline o wake) :
    s.watch.wait table level deadline s.feed now = (o, wake) := by
  have computed := Watch.looks_wait table level deadline s.watch s.feed now (h.from_.trans h.by_)
  obtain ⟨outcome, moment⟩ := computed.unique h
  exact Prod.ext outcome moment

/-- A wait on a submission that nobody watches any more ends at once. -/
theorem looks_cut (level : Level) {now deadline : Nat} (le : now ≤ deadline) :
    Watch.Looks (s.cut.watchAt table) level now deadline
      ((s.watch.status.resolve level).getD .timedOut) now := by
  refine .at_once le ?_
  have still : s.cut.watchAt table now = s.watch.cut := Watch.after_of_not_reading table rfl _
  rw [still, Watch.verdict_cut]

theorem watchAt_settle {now m : Nat} (le : now ≤ m) :
    (s.settle table now).watchAt table m = s.watchAt table m := by
  rw [watchAt, watchAt, settle_settle table le]

/-- A wait that is not over at a moment goes on from there to the end that it has. -/
theorem looks_settle {level : Level} {now deadline mid wake : Nat} {o : Outcome}
    (h : Watch.Looks (s.watchAt table) level now deadline o wake) (from_ : now ≤ mid)
    (early : mid ≤ wake) :
    Watch.Looks ((s.settle table mid).watchAt table) level mid deadline o wake :=
  (h.later from_ early).congr fun _ late => s.watchAt_settle table late

end Submission

end ShellSale
