import ShellSale.Proofs.Pipeline.Log
import ShellSale.Proofs.Submission.Moments
import ShellSale.Rehearsal.Operation

/-!
## Waits in a session

A session waits for a submission in the foreground (`Operation.await`) or in the background
(`Operation.spawnAwait`, whose end `Operation.join` tells). Both end as the moments of the
submission say, and apart from the log nobody can tell a wait from sleeping for as long.

* `Session.forget` is a session without one waiter, and `Session.turnPage` one without its log:
  what is left does not depend on the wait (`forget_advance`, `turnPage_advance`).
* `Session.Awaited` is what is kept of a wait in the background while time passes; a closed tracker
  ends it (`Awaited.closed`).
* `Session.waits` is the main result.
-/

namespace ShellSale

namespace Session

variable {s : Session} {p : Place} {sub : Submission}

/-! ### Time passes -/

theorem at?_advance (s : Session) (later : Nat) (p : Place) :
    (s.advance later).at? p = (s.at? p).map (·.settle s.client.errors later) := by
  simp only [at?, advance, List.getElem?_map]
  cases s.trackers[p.tracker]? with
  | none => rfl
  | some t => exact List.getElem?_map ..

theorem at?_of_submission? {name : String} (h : s.submission? name = some (p, sub)) :
    s.at? p = some sub := by
  simp only [submission?, Option.bind_eq_bind, Option.bind_eq_some_iff, Option.pure_def,
    Option.some.injEq, Prod.mk.injEq] at h
  obtain ⟨place, -, submission, held, rfl, rfl⟩ := h
  exact held

/-- The waiter with a name. -/
def waiter? (s : Session) (name : String) : Option Waiter :=
  s.waiters.find? fun w => w.name == name

/-- Time gives a waiter a result at most. -/
theorem exists_advance_eq (s : Session) (later : Nat) (w : Waiter) :
    ∃ result, w.advance s later = { w with result } := by
  unfold Waiter.advance
  split
  · dsimp only
    split <;> exact ⟨_, rfl⟩
  · exact ⟨_, rfl⟩

theorem name_advance (s : Session) (later : Nat) (w : Waiter) :
    (w.advance s later).name = w.name := by
  obtain ⟨result, eq⟩ := exists_advance_eq s later w
  rw [eq]

theorem place_advance (s : Session) (later : Nat) (w : Waiter) :
    (w.advance s later).place = w.place := by
  obtain ⟨result, eq⟩ := exists_advance_eq s later w
  rw [eq]

theorem waiter?_advance (s : Session) (later : Nat) (name : String) :
    (s.advance later).waiter? name = (s.waiter? name).map (·.advance s later) := by
  simp only [waiter?, advance, List.find?_map, Function.comp_def, name_advance]

/-- Time passes without any call. -/
theorem sent_advance (s : Session) (later : Nat) : (s.advance later).world.sent = s.world.sent :=
  World.sent_notifyAt s.world _

/-! ### What a wait leaves behind -/

/-- The session without a waiter, on a new page of the log. -/
def forget (s : Session) (waiter : String) : Session :=
  { s.turnPage with waiters := s.waiters.filter fun w => w.name != waiter }

theorem history_turnPage_advance (s : Session) (later : Nat) :
    (s.advance later).turnPage.history = s.turnPage.history :=
  congrArg (s.history ++ ·) (sent_advance s later)

theorem history_turnPage_turnPage (s : Session) :
    s.turnPage.turnPage.history = s.turnPage.history :=
  List.append_nil _

theorem turnPage_advance (s : Session) (later : Nat) :
    (s.advance later).turnPage = (s.turnPage.advance later).turnPage := by
  have history : (s.advance later).turnPage.history =
      (s.turnPage.advance later).turnPage.history := by
    rw [history_turnPage_advance, history_turnPage_advance, history_turnPage_turnPage]
  calc (s.advance later).turnPage
      = { (s.turnPage.advance later).turnPage with
          history := (s.advance later).turnPage.history } := rfl
    _ = (s.turnPage.advance later).turnPage := by rw [history]

theorem forget_advance (s : Session) (later : Nat) (waiter : String) :
    (s.advance later).forget waiter = ((s.forget waiter).advance later).forget waiter := by
  have history : (s.advance later).turnPage.history =
      ((s.forget waiter).advance later).turnPage.history := by
    rw [history_turnPage_advance, history_turnPage_advance]
    exact (history_turnPage_turnPage s).symm
  have others : (s.waiters.map (·.advance s later)).filter (fun w => w.name != waiter) =
      (((s.waiters.filter fun w => w.name != waiter)).map (·.advance s later)).filter
        (fun w => w.name != waiter) := by
    simp only [List.filter_map, Function.comp_def, name_advance, List.filter_filter, Bool.and_self]
  calc (s.advance later).forget waiter
      = { ((s.forget waiter).advance later).turnPage with
          history := (s.advance later).turnPage.history
          waiters := (s.waiters.map (·.advance s later)).filter fun w => w.name != waiter } := rfl
    _ = ((s.forget waiter).advance later).forget waiter := by
        rw [history, others]
        rfl

/-- A session and a copy of it that lacks a waiter stay so as time passes. -/
theorem forget_advance_congr {s s' : Session} {waiter : String}
    (h : s.forget waiter = s'.forget waiter) (later : Nat) :
    (s.advance later).forget waiter = (s'.advance later).forget waiter := by
  rw [forget_advance, h, ← forget_advance]

theorem turnPage_advance_congr {s s' : Session} (h : s.turnPage = s'.turnPage) (later : Nat) :
    (s.advance later).turnPage = (s'.advance later).turnPage := by
  rw [turnPage_advance, h, ← turnPage_advance]

/-- A notice stands on the page of the log that is turned. -/
theorem turnPage_notify (s : Session) (n : Notice) :
    { s with world := s.world.notify n }.turnPage = s.turnPage := by
  have history : s.history ++ (s.world.notify n).sent = s.turnPage.history :=
    congrArg (s.history ++ ·) (World.sent_notify s.world n)
  calc { s with world := s.world.notify n }.turnPage
      = { s.turnPage with history := s.history ++ (s.world.notify n).sent } := rfl
    _ = s.turnPage := by rw [history]

/-! ### Waits in the foreground -/

section

variable {name : String} (known : s.submission? name = some (p, sub)) (level : Level)
  (timeout : Nat)

include known

/-- What a wait in the foreground answers, and what it leaves of the session. -/
theorem step_await :
    let waited := sub.wait s.client.errors level s.world.now timeout
    let slept := s.step (.sleep (waited.2 - s.world.now))
    (s.step (.await name level timeout)).1.answer = .outcome waited.1 ∧
      (s.step (.await name level timeout)).1.now = waited.2 ∧
      (s.step (.await name level timeout)).2.turnPage = slept.2.turnPage := by
  intro waited slept
  have found : s.turnPage.submission? name = some (p, sub) := known
  have performed : ∃ s', s.turnPage.perform (.await name level timeout) = (.outcome waited.1, s') ∧
      s'.world.now = waited.2 ∧ s'.turnPage = (s.turnPage.advance waited.2).turnPage := by
    simp only [perform, await, found]
    refine ⟨_, rfl, ?_, ?_⟩
    · split <;> rfl
    · split
      · exact turnPage_notify (s.turnPage.advance waited.2) _
      · rfl
  -- the wait leaves the session where a sleep of the same length would
  obtain ⟨s', answered, now, page⟩ := performed
  have bounds := sub.wait_bounds s.client.errors level s.world.now timeout
  have moment : s.world.now + (waited.2 - s.world.now) = waited.2 :=
    Nat.add_sub_of_le bounds.1
  have sleep : slept.2 = (s.turnPage.advance waited.2).advance waited.2 := by
    show (s.turnPage.advance (s.world.now + _)).advance (s.world.now + _) = _
    rw [moment]
  simp only [step, answered]
  refine ⟨trivial, now, ?_⟩
  rw [sleep, now]
  exact turnPage_advance_congr page waited.2

end

/-! ### Waits in the background -/

theorem Waiter.advance_of_result {w : Waiter} {ended : Outcome × Nat} (h : w.result = some ended)
    (s : Session) (later : Nat) : w.advance s later = w := by
  simp only [Waiter.advance, h]

/-- A waiter that still waits comes to its end once time passes the end of its wait. -/
theorem Waiter.advance_of_waiting {w : Waiter} (h : w.result = none)
    (held : s.at? w.place = some sub) {o : Outcome} {wake : Nat}
    (waited : sub.watch.wait s.client.errors w.level w.deadline sub.feed s.world.now = (o, wake))
    (later : Nat) :
    w.advance s later = if wake ≤ later then { w with result := some (o, wake) } else w := by
  simp only [Waiter.advance, h, held, waited]

/-- The ways to close a tracker, and what each makes of the world. -/
inductive Closing (tracker : String) :
    Operation → (World Stage ScriptedCall → Tracker → World Stage ScriptedCall) → Prop
  | close : Closing tracker (.close tracker) Tracker.close
  | drop : Closing tracker (.drop tracker) Tracker.release

namespace Closing

variable {tracker : String} {closing : Operation}
  {ends : World Stage ScriptedCall → Tracker → World Stage ScriptedCall}

theorem now_eq (h : Closing tracker closing ends) (w : World Stage ScriptedCall) (t : Tracker) :
    (ends w t).now = w.now := by
  cases h <;> rfl

theorem node_eq (h : Closing tracker closing ends) (w : World Stage ScriptedCall) (t : Tracker) :
    (ends w t).node = w.node := by
  cases h <;> rfl

theorem perform_eq (h : Closing tracker closing ends) {number : Nat} {t : Tracker}
    (found : s.tracker? tracker = some (number, t)) :
    s.perform closing = (.nothing, { s.retire tracker number with world := ends s.world t }) := by
  cases h <;> rw [perform, found]

end Closing

theorem tracker?_of_at? (held : s.at? p = some sub) {tracker : String}
    (opened : named? s.openTrackers tracker = some p.tracker) :
    ∃ t, s.tracker? tracker = some (p.tracker, t) ∧ t.submissions[p.index]? = some sub := by
  obtain ⟨t, listed, held⟩ := Option.bind_eq_some_iff.mp held
  refine ⟨t, ?_, held⟩
  show (named? s.openTrackers tracker).bind _ = _
  rw [opened, Option.bind_some]
  show (s.trackers[p.tracker]?).bind _ = _
  rw [listed]
  rfl

/-- A retired tracker holds its submissions as they are, unwatched. -/
theorem at?_retire (held : s.at? p = some sub) (tracker : String) :
    (s.retire tracker p.tracker).at? p = some sub.cut := by
  obtain ⟨t, listed, held⟩ := Option.bind_eq_some_iff.mp held
  show (s.trackers.modify p.tracker Tracker.cut)[p.tracker]?.bind (·.submissions[p.index]?) = _
  rw [List.getElem?_modify_eq, listed]
  show (t.submissions.map Submission.cut)[p.index]? = _
  rw [List.getElem?_map, held, Option.map_some]

/-- Joining a waiter lets time pass to the end of its wait and tells that end. -/
theorem step_join_eq {waiter : String} {w : Waiter} (mine : s.waiter? waiter = some w)
    (held : s.at? w.place = some sub) {later : Nat}
    (target : later = if w.result.isSome then s.world.now else
      (sub.watch.wait s.client.errors w.level w.deadline sub.feed s.world.now).2)
    (le : s.world.now ≤ later) {o : Outcome} {at_ : Nat}
    (ended : (w.advance s later).result = some (o, at_)) :
    (s.step (.join waiter)).1.answer = .ended o at_ ∧
      (s.step (.join waiter)).2 = (s.step (.sleep (later - s.world.now))).2 := by
  -- both operations come to the same moment, and the waiter is settled there either way
  have moment : s.world.now + (later - s.world.now) = later := Nat.add_sub_of_le le
  have found : s.turnPage.waiters.find? (fun w => w.name == waiter) = some w := mine
  have held' : s.turnPage.at? w.place = some sub := held
  have after : (s.turnPage.advance later).waiters.find? (fun w => w.name == waiter) =
      some (w.advance s later) := by
    have eq := waiter?_advance s.turnPage later waiter
    rw [show s.turnPage.waiter? waiter = some w from mine] at eq
    exact eq
  have joined : s.turnPage.perform (.join waiter) = (.ended o at_, s.turnPage.advance later) := by
    simp only [perform, join, found, held']
    rw [show s.turnPage.world.now = s.world.now from rfl,
      show s.turnPage.client = s.client from rfl, ← target, after]
    simp only [Option.bind_some, ended]
  have slept : s.turnPage.perform (.sleep (later - s.world.now)) =
      (.nothing, s.turnPage.advance later) := by
    rw [perform, show s.turnPage.world.now = s.world.now from rfl, moment]
  simp only [step, joined, slept, and_self]

/-- What a session keeps of a wait in the background that started at `start` and ends with `o` at
`wake`, where `sub` is the submission as it was then. -/
structure Awaited (s : Session) (waiter : String) (p : Place) (sub : Submission) (level : Level)
    (start deadline : Nat) (o : Outcome) (wake : Nat) : Prop where
  looks : Watch.Looks (sub.watchAt s.client.errors) level start deadline o wake
  start_le : start ≤ s.world.now
  submission : s.at? p = some (sub.settle s.client.errors s.world.now)
  waiting : ∃ w, s.waiter? waiter = some w ∧ w.place = p ∧ w.level = level ∧
    w.deadline = deadline ∧ w.result = if wake ≤ s.world.now then some (o, wake) else none

/-- A wait in the background starts. -/
theorem awaited_spawnAwait {name : String} (known : s.submission? name = some (p, sub))
    (waiter : String) (level : Level) (timeout : Nat) :
    let waited := sub.wait s.client.errors level s.world.now timeout
    (s.step (.spawnAwait waiter name level timeout)).2.Awaited waiter p sub level s.world.now
      (s.world.now + timeout) waited.1 waited.2 := by
  intro waited
  have found : s.turnPage.submission? name = some (p, sub) := known
  have held : s.at? p = some sub := at?_of_submission? known
  let w : Waiter :=
    { name := waiter, place := p, level, timeout, deadline := s.world.now + timeout }
  let s' : Session :=
    { s.turnPage with waiters := (s.waiters.filter fun w => w.name != waiter) ++ [w] }
  have stepped : (s.step (.spawnAwait waiter name level timeout)).2 = s'.advance s.world.now := by
    simp only [step, perform, found]
    rfl
  -- the new waiter replaces one of the same name
  have mine : s'.waiter? waiter = some w := by
    have none : (s.waiters.filter fun w => w.name != waiter).find? (fun w => w.name == waiter) =
        none := by
      rw [List.find?_eq_none]
      intro other mem
      simpa using (List.mem_filter.mp mem).2
    rw [waiter?, List.find?_append, none, Option.none_or]
    exact List.find?_cons_of_pos (beq_self_eq_true waiter)
  rw [stepped]
  refine ⟨sub.looks_wait s.client.errors level s.world.now timeout, Nat.le_refl _, ?_, ?_⟩
  · rw [at?_advance]
    exact congrArg _ held
  · refine ⟨w.advance s' s.world.now, by rw [waiter?_advance, mine]; rfl, ?_⟩
    rw [Waiter.advance_of_waiting rfl held rfl s.world.now]
    split
    · rename_i past
      exact ⟨rfl, rfl, rfl, (if_pos past).symm⟩
    · rename_i past
      exact ⟨rfl, rfl, rfl, (if_neg past).symm⟩

namespace Awaited

variable {waiter : String} {level : Level} {start deadline : Nat} {o : Outcome} {wake : Nat}

/-- What is left of a wait that is not over yet. -/
theorem waited (h : s.Awaited waiter p sub level start deadline o wake) (le : s.world.now ≤ wake) :
    let held := sub.settle s.client.errors s.world.now
    held.watch.wait s.client.errors level deadline held.feed s.world.now = (o, wake) :=
  Submission.wait_of_looks _ _ (sub.looks_settle s.client.errors h.looks h.start_le le)

/-- **What time keeps.** A wait in the background goes on to its end whatever the steps in which
time passes. -/
theorem advance (h : s.Awaited waiter p sub level start deadline o wake) {later : Nat}
    (le : s.world.now ≤ later) :
    (s.advance later).Awaited waiter p sub level start deadline o wake := by
  obtain ⟨w, mine, rfl, rfl, rfl, result⟩ := h.waiting
  refine ⟨h.looks, h.start_le.trans le, ?_, w.advance s later, ?_, ?_⟩
  · rw [at?_advance, h.submission]
    exact congrArg some (Submission.settle_settle _ le sub)
  · rw [waiter?_advance, mine]
    rfl
  · by_cases past : wake ≤ s.world.now
    · -- the wait has ended before
      rw [if_pos past] at result
      rw [Waiter.advance_of_result result]
      exact ⟨rfl, rfl, rfl, result.trans (if_pos (past.trans le)).symm⟩
    · rw [if_neg past] at result
      have waited := h.waited (Nat.le_of_not_le past)
      rw [Waiter.advance_of_waiting result h.submission waited later]
      split
      · rename_i ended
        exact ⟨rfl, rfl, rfl, (if_pos ended).symm⟩
      · rename_i ended
        exact ⟨rfl, rfl, rfl, result.trans (if_neg ended).symm⟩

theorem step_sleep (h : s.Awaited waiter p sub level start deadline o wake) (ms : Nat) :
    (s.step (.sleep ms)).2.Awaited waiter p sub level start deadline o wake := by
  have turned : s.turnPage.Awaited waiter p sub level start deadline o wake :=
    ⟨h.looks, h.start_le, h.submission, h.waiting⟩
  exact (turned.advance (Nat.le_add_right s.world.now ms)).advance (Nat.le_refl _)

/-- Somebody who joins a wait in the background learns how it ended, and when. -/
theorem step_join (h : s.Awaited waiter p sub level start deadline o wake) :
    (s.step (.join waiter)).1.answer = .ended o wake ∧
      (s.step (.join waiter)).2 = (s.step (.sleep (wake - s.world.now))).2 := by
  obtain ⟨w, mine, rfl, rfl, rfl, result⟩ := h.waiting
  by_cases past : wake ≤ s.world.now
  · rw [if_pos past] at result
    have joined := step_join_eq mine h.submission (by rw [result]; rfl) (Nat.le_refl _)
      (by rw [Waiter.advance_of_result result, result])
    rw [Nat.sub_self] at joined
    rw [Nat.sub_eq_zero_of_le past]
    exact joined
  · rw [if_neg past] at result
    have waited := h.waited (Nat.le_of_not_le past)
    refine step_join_eq mine h.submission ?_ (Nat.le_of_not_le past) ?_
    · rw [result, waited]
      rfl
    · rw [Waiter.advance_of_waiting result h.submission waited, if_pos (Nat.le_refl wake)]

/-- Somebody who joins a wait after the tracker was closed, in whichever way, learns its end, which
was then at the latest. -/
theorem step_closing_join (h : s.Awaited waiter p sub level start deadline o wake)
    {tracker : String} (opened : named? s.openTrackers tracker = some p.tracker)
    {closing : Operation} {ends : World Stage ScriptedCall → Tracker → World Stage ScriptedCall}
    (closes : Closing tracker closing ends) :
    let ended := if wake ≤ s.world.now then (o, wake) else (.timedOut, s.world.now)
    let s' := (s.step closing).2
    (s.step closing).1.answer = .nothing ∧
      (s'.step (.join waiter)).1.answer = .ended ended.1 ended.2 ∧
      (s'.step (.join waiter)).2 = (s'.step (.sleep 0)).2 := by
  intro ended s'
  obtain ⟨w, mine, rfl, rfl, rfl, result⟩ := h.waiting
  let held := sub.settle s.client.errors s.world.now
  obtain ⟨t, found, -⟩ := tracker?_of_at? h.submission opened
  let closed : Session :=
    { s.turnPage.retire tracker w.place.tracker with world := ends s.turnPage.world t }
  have performed : s.turnPage.perform closing = (.nothing, closed) := closes.perform_eq found
  have now : closed.world.now = s.world.now := closes.now_eq s.turnPage.world t
  have client : closed.client = s.client :=
    congrArg (fun n : Stage => Stage.client n.errors) (closes.node_eq s.turnPage.world t)
  have cut : closed.at? w.place = some held.cut := at?_retire (s := s.turnPage) h.submission tracker
  have stepped : s' = closed.advance s.world.now := by
    simp only [s', step, performed, now]
  have mine' : s'.waiter? waiter = some (w.advance closed s.world.now) := by
    rw [stepped, waiter?_advance, show closed.waiter? waiter = some w from mine]
    rfl
  have held' : s'.at? (w.advance closed s.world.now).place =
      some (held.cut.settle closed.client.errors s.world.now) := by
    rw [stepped, place_advance, at?_advance, cut]
    rfl
  -- the wait is over already, or it is cut off now
  have resulted : (w.advance closed s.world.now).result = some ended := by
    by_cases past : wake ≤ s.world.now
    · simp only [ended, if_pos past] at result ⊢
      rw [Waiter.advance_of_result result, result]
    · simp only [ended, if_neg past] at result ⊢
      have running : s.world.now < wake := Nat.lt_of_not_le past
      -- before the end of the wait the status yields nothing, and now nobody reads on
      have silent := (Watch.verdict_eq_none_iff.mp (h.looks.silent _ h.start_le running)).1
      have looks := held.looks_cut s.client.errors w.level (running.le.trans h.looks.by_)
      rw [show held.watch.status.resolve w.level = none from silent, Option.getD_none] at looks
      have waited := Submission.wait_of_looks _ _ looks
      rw [← client, ← now] at waited
      rw [Waiter.advance_of_waiting result cut waited, now, if_pos (Nat.le_refl _)]
  have joined := step_join_eq mine' held' (by rw [resulted]; rfl) (Nat.le_refl s'.world.now)
    (by rw [Waiter.advance_of_result resulted, resulted])
  rw [Nat.sub_self] at joined
  exact ⟨by simp only [step, performed], joined⟩

end Awaited

/-! ### What a wait in the background leaves behind -/

theorem filter_waiters_twice (s : Session) (waiter : String) :
    (s.waiters.filter fun w => w.name != waiter).filter (fun w => w.name != waiter) =
      s.waiters.filter fun w => w.name != waiter := by
  rw [List.filter_filter]
  simp only [Bool.and_self]

theorem forget_turnPage (s : Session) (waiter : String) :
    s.turnPage.forget waiter = s.forget waiter := by
  calc s.turnPage.forget waiter
      = { s.forget waiter with history := s.turnPage.turnPage.history } := rfl
    _ = s.forget waiter := by
        rw [history_turnPage_turnPage]
        rfl

/-- A waiter that starts leaves what a look at the status leaves. -/
theorem forget_spawnAwait {name : String} (known : s.submission? name = some (p, sub))
    (waiter : String) (level : Level) (timeout : Nat) :
    (s.step (.spawnAwait waiter name level timeout)).2.forget waiter =
      (s.step (.status name)).2.forget waiter := by
  have found : s.turnPage.submission? name = some (p, sub) := known
  simp only [step, perform, found]
  refine forget_advance_congr ?_ _
  let w : Waiter :=
    { name := waiter, place := p, level, timeout, deadline := s.world.now + timeout }
  have others : ((s.waiters.filter fun w => w.name != waiter) ++ [w]).filter
      (fun w => w.name != waiter) = s.waiters.filter fun w => w.name != waiter := by
    rw [List.filter_append, filter_waiters_twice, List.filter_cons_of_neg (by simp [w]),
      List.filter_nil, List.append_nil]
  exact congrArg (fun waiters => { s.turnPage.turnPage with waiters }) others

/-- Sessions alike but for a waiter stay so while time passes. -/
theorem forget_sleep_congr {s s' : Session} {waiter : String}
    (h : s.forget waiter = s'.forget waiter) (ms : Nat) :
    (s.step (.sleep ms)).2.forget waiter = (s'.step (.sleep ms)).2.forget waiter := by
  have now : s.world.now = s'.world.now := congrArg (·.world.now) h
  have page : s.turnPage.forget waiter = s'.turnPage.forget waiter := by
    rw [forget_turnPage, forget_turnPage, h]
  show ((s.turnPage.advance (s.world.now + ms)).advance (s.world.now + ms)).forget waiter =
    ((s'.turnPage.advance (s'.world.now + ms)).advance (s'.world.now + ms)).forget waiter
  rw [← now]
  exact forget_advance_congr (forget_advance_congr page _) _

/-- Sessions alike but for a waiter stay so when a tracker is closed. -/
theorem forget_closing_congr {s s' : Session} {waiter : String}
    (h : s.forget waiter = s'.forget waiter) {tracker : String} {number : Nat} {t : Tracker}
    (found : s.tracker? tracker = some (number, t)) {closing : Operation}
    {ends : World Stage ScriptedCall → Tracker → World Stage ScriptedCall}
    (closes : Closing tracker closing ends) :
    (s.step closing).2.forget waiter = (s'.step closing).2.forget waiter := by
  let closed (s : Session) : Session :=
    { s.turnPage.retire tracker number with world := ends s.turnPage.world t }
  have found' : s'.tracker? tracker = some (number, t) := by
    rw [← found]
    exact (congrArg (·.tracker? tracker) h).symm
  have performed : s.turnPage.perform closing = (.nothing, closed s) := closes.perform_eq found
  have performed' : s'.turnPage.perform closing = (.nothing, closed s') := closes.perform_eq found'
  have now : (closed s).world.now = (closed s').world.now := by
    show (ends s.turnPage.world t).now = (ends s'.turnPage.world t).now
    rw [closes.now_eq, closes.now_eq]
    exact congrArg (·.world.now) h
  -- the waiter may be left out before the closing or after it
  have forgotten : ∀ s : Session, (closed s).forget waiter =
      { (s.forget waiter).retire tracker number with
        world := ends (s.forget waiter).world t }.forget waiter := by
    intro s
    calc (closed s).forget waiter
        = { { (s.forget waiter).retire tracker number with
              world := ends (s.forget waiter).world t }.forget waiter with
            waiters := s.waiters.filter fun w => w.name != waiter } := rfl
      _ = _ := by
          rw [← filter_waiters_twice]
          rfl
  simp only [step, performed, performed', now]
  exact forget_advance_congr (by rw [forgotten, forgotten, h]) _

/-! ### Whole waits -/

/-- What somebody gets who waits in a session for the submission with a name: `o` at `at_`, in the
foreground as in the background. Apart from the log, and from the waiter itself, the session is left
as by sleeping until then. -/
structure Gives (s : Session) (name : String) (level : Level) (timeout : Nat) (o : Outcome)
    (at_ : Nat) : Prop where
  foreground : (s.step (.await name level timeout)).1.answer = .outcome o ∧
    (s.step (.await name level timeout)).1.now = at_
  foreground_rest : (s.step (.await name level timeout)).2.turnPage =
    (s.step (.sleep (at_ - s.world.now))).2.turnPage
  background : ∀ waiter,
    (s.play [.spawnAwait waiter name level timeout, .join waiter]).1.map (·.answer) =
      [.nothing, .ended o at_]
  background_rest : ∀ waiter,
    (s.play [.spawnAwait waiter name level timeout, .join waiter]).2.forget waiter =
      (s.play [.status name, .sleep (at_ - s.world.now)]).2.forget waiter

/-- What somebody gets who waits in the background while the tracker is closed at the moment `c`. -/
structure GivesClosed (s : Session) (name : String) (level : Level) (timeout c : Nat)
    (closing : Operation) (o : Outcome) (at_ : Nat) : Prop where
  background : ∀ waiter,
    (s.play [.spawnAwait waiter name level timeout, .sleep (c - s.world.now), closing,
      .join waiter]).1.map (·.answer) = [.nothing, .nothing, .nothing, .ended o at_]
  background_rest : ∀ waiter,
    (s.play [.spawnAwait waiter name level timeout, .sleep (c - s.world.now), closing,
      .join waiter]).2.forget waiter =
    (s.play [.status name, .sleep (c - s.world.now), closing, .sleep 0]).2.forget waiter

section

variable {name : String} (known : s.submission? name = some (p, sub)) (level : Level)
  (timeout : Nat)

include known

theorem step_spawnAwait (waiter : String) :
    (s.step (.spawnAwait waiter name level timeout)).1.answer = .nothing ∧
      (s.step (.spawnAwait waiter name level timeout)).2.world.now = s.world.now ∧
      (s.step (.spawnAwait waiter name level timeout)).2.openTrackers = s.openTrackers := by
  have found : s.turnPage.submission? name = some (p, sub) := known
  simp only [step, perform, found]
  exact ⟨trivial, rfl, rfl⟩

theorem gives :
    s.Gives name level timeout (sub.wait s.client.errors level s.world.now timeout).1
      (sub.wait s.client.errors level s.world.now timeout).2 where
  foreground := by
    obtain ⟨answered, now, -⟩ := step_await known level timeout
    exact ⟨answered, now⟩
  foreground_rest := (step_await known level timeout).2.2
  background waiter := by
    obtain ⟨answered, -⟩ := (awaited_spawnAwait known waiter level timeout).step_join
    have spawned := (step_spawnAwait known level timeout waiter).1
    simp only [play, List.map_cons, List.map_nil, answered, spawned]
  background_rest waiter := by
    obtain ⟨-, left⟩ := (awaited_spawnAwait known waiter level timeout).step_join
    rw [(step_spawnAwait known level timeout waiter).2.1] at left
    simp only [play, left]
    exact forget_sleep_congr (forget_spawnAwait known waiter level timeout) _

theorem givesClosed {tracker : String} (opened : named? s.openTrackers tracker = some p.tracker)
    {closing : Operation} {ends : World Stage ScriptedCall → Tracker → World Stage ScriptedCall}
    (closes : Closing tracker closing ends) {c : Nat} (le : s.world.now ≤ c) :
    let waited := sub.wait s.client.errors level s.world.now timeout
    let ended := if waited.2 ≤ c then waited else (.timedOut, c)
    s.GivesClosed name level timeout c closing ended.1 ended.2 := by
  intro waited ended
  have slept : ∀ waiter, ((s.step (.spawnAwait waiter name level timeout)).2.step
      (.sleep (c - s.world.now))).2.world.now = c := by
    intro waiter
    show (s.step (.spawnAwait waiter name level timeout)).2.world.now + (c - s.world.now) = c
    rw [(step_spawnAwait known level timeout waiter).2.1, Nat.add_sub_of_le le]
  have awaited := fun waiter =>
    (awaited_spawnAwait known waiter level timeout).step_sleep (c - s.world.now)
  have opened' : ∀ waiter, named? ((s.step (.spawnAwait waiter name level timeout)).2.step
      (.sleep (c - s.world.now))).2.openTrackers tracker = some p.tracker := by
    intro waiter
    show named? (s.step (.spawnAwait waiter name level timeout)).2.openTrackers tracker = _
    rw [(step_spawnAwait known level timeout waiter).2.2, opened]
  have joined := fun waiter => (awaited waiter).step_closing_join (opened' waiter) closes
  simp only [slept] at joined
  constructor
  · intro waiter
    obtain ⟨closed, answered, -⟩ := joined waiter
    have spawned := (step_spawnAwait known level timeout waiter).1
    simp only [play, List.map_cons, List.map_nil, closed, answered, spawned]
    rfl
  · intro waiter
    obtain ⟨-, -, left⟩ := joined waiter
    obtain ⟨t, found, -⟩ := tracker?_of_at? (awaited waiter).submission (opened' waiter)
    have before := forget_spawnAwait known waiter level timeout
    simp only [play, left]
    exact forget_sleep_congr
      (forget_closing_congr (forget_sleep_congr before _) found closes) 0

/-- **Waits by their moments.** For every submission of a session, whatever its reports and whether
it is still watched: a wait ends at the first moment from its start to its deadline at which the
status yields an outcome, with that outcome, and else with a timeout, at the deadline or at the
first moment at which nobody watches. An outcome other than a timeout is the same under every longer
timeout. A wait changes nothing: the session is left as by sleeping. If the tracker is closed during
the wait, the same holds of the watch that is cut then. -/
theorem waits :
    (∃ o at_, Watch.Ends (sub.watchAt s.client.errors) level s.world.now (s.world.now + timeout) o
        at_ ∧
      s.Gives name level timeout o at_ ∧
      (o ≠ .timedOut → ∀ longer, timeout ≤ longer → s.Gives name level longer o at_)) ∧
    ∀ tracker closing c, closing = .close tracker ∨ closing = .drop tracker →
      named? s.openTrackers tracker = some p.tracker → s.world.now ≤ c →
      ∃ o at_, Watch.Ends (Watch.closedAt (sub.watchAt s.client.errors) c) level s.world.now
          (s.world.now + timeout) o at_ ∧
        s.GivesClosed name level timeout c closing o at_ := by
  have looks := fun timeout => sub.looks_wait s.client.errors level s.world.now timeout
  have frozen := sub.frozen_watchAt s.client.errors
  have ends := (looks timeout).ends frozen
  refine ⟨⟨_, _, ends, gives known level timeout, ?_⟩, ?_⟩
  · intro ne longer le
    -- the longer wait ends as the shorter one does, and a wait ends in one way only
    have extended := ends.of_le ne (Nat.add_le_add_left le s.world.now)
    obtain ⟨outcome, moment⟩ := ((looks longer).ends frozen).unique extended
    have longer := gives known level longer
    rw [outcome, moment] at longer
    exact longer
  · intro tracker closing c closes opened le
    obtain ⟨ends', closes⟩ : ∃ ends, Closing tracker closing ends := by
      rcases closes with rfl | rfl
      · exact ⟨_, .close⟩
      · exact ⟨_, .drop⟩
    have closed := givesClosed known level timeout opened closes le
    -- the wait may be over before the closing
    by_cases past : (sub.wait s.client.errors level s.world.now timeout).2 ≤ c
    · simp only [if_pos past] at closed
      exact ⟨_, _, ((looks timeout).closedAt_of_le past).ends (frozen.closedAt c), closed⟩
    · simp only [if_neg past] at closed
      exact ⟨_, _, ((looks timeout).closed le (Nat.lt_of_not_le past)).ends (frozen.closedAt c),
        closed⟩

end

/-- A call that is included and retracted at once satisfies nobody before it is final; a wait for it
gives up when its tracker is closed before that. -/
theorem waits_fleeting :
    let block := BlockHash.ofNat 1
    let overlord : AccountId := .ofNat 1
    let call : Submission :=
      { account := overlord, nonce := 0, serial := 1
        feed := [(5, .event (.inBlock block)), (5, .event .retracted),
          (40, .event (.finalized block []))] }
    let s : Session :=
      { world := { node := {} }
        trackers := [{ account := overlord, cursor := ⟨1⟩, submissions := [call] }]
        openTrackers := [("tracker", 0)]
        submissions := [("call", ⟨0, 0⟩)] }
    s.submission? "call" = some (⟨0, 0⟩, call) ∧
      (s.step (.await "call" .inBlock 100)).1.answer = .outcome (.accepted block) ∧
      (s.step (.await "call" .inBlock 100)).1.now = 40 ∧
      (s.play [.spawnAwait "waiter" "call" .inBlock 100, .sleep 20, .close "tracker",
        .join "waiter"]).1.map (·.answer) =
          [.nothing, .nothing, .nothing, .ended .timedOut 20] := by
  intro block overlord call s
  have known : s.submission? "call" = some (⟨0, 0⟩, call) := rfl
  have looks := call.looks_wait s.client.errors .inBlock 0 100
  have frozen := call.frozen_watchAt s.client.errors
  obtain ⟨⟨o, at_, ends, gives, -⟩, closed⟩ := waits known .inBlock 100
  obtain ⟨rfl, rfl⟩ := (looks.ends frozen).unique ends
  refine ⟨known, gives.foreground.1, gives.foreground.2, ?_⟩
  obtain ⟨o, at_, ends, gives⟩ := closed "tracker" _ 20 (Or.inl rfl) rfl (Nat.zero_le 20)
  have early := looks.closed (c := 20) (Nat.zero_le 20) (by decide)
  obtain ⟨rfl, rfl⟩ := (early.ends (frozen.closedAt 20)).unique ends
  exact gives.background "waiter"

end Session

end ShellSale
