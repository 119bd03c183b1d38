import ShellSale.Proofs.Batch.Tasks
import ShellSale.Proofs.Rehearsal.Outcomes

/-!
## What closing a tracker ends, and what it leaves alone

Whoever closes or drops a tracker stops to watch its calls. Their statuses stay as they are for
good, and a wait for one of them that is not over gives up at once; a call is not recalled, and
nothing is made up about it. Everything else in the session is as before, and the account is free.

* `Session.Current`: a session in which only operations have been performed has taken all that is
  due, so that time passes for nothing if it does not pass (`current_play`).
* `Session.calls_step`, `Session.nodup_step`: what every operation keeps of the calls and of the
  registry.
* `Session.step_closing` is the session after its tracker was closed, in full.
* `Session.closed_for_good` is the main result.
-/

namespace ShellSale

/-- A wait goes the same whether the reports due at its start are taken before it or by it. -/
theorem Watch.wait_due (table : ErrorTable) (level : Level) (deadline : Nat) (w : Watch)
    (feed : Feed) (now : Nat) :
    wait table level deadline (w.after table ((feed.due now).map (·.2))) (feed.later now) now =
      wait table level deadline w feed now := by
  induction feed generalizing w with
  | nil => rfl
  | cons head rest ih =>
    obtain ⟨at_, r⟩ := head
    by_cases due : at_ ≤ now
    · rw [Feed.due_cons_of_le due, Feed.later_cons_of_le due, List.map_cons, after_cons, ih]
      conv_rhs => rw [wait, if_pos due]
    · have ahead : now < at_ := Nat.lt_of_not_le due
      rw [Feed.due_cons_of_lt ahead, Feed.later_cons_of_lt ahead]
      rfl

/-- A submission that has taken all that is due takes nothing more once it is cut. -/
theorem Submission.settle_cut {table : ErrorTable} {now : Nat} {s : Submission}
    (still : s.settle table now = s) : s.cut.settle table now = s.cut := by
  have stopped : s.watch.cut.reading = false := rfl
  calc s.cut.settle table now
      = { s.settle table now with watch := s.watch.cut } := by
        simp only [settle, cut, Watch.after_of_not_reading table stopped]
    _ = s.cut := by rw [still]; rfl

theorem Tracker.settle_cut {table : ErrorTable} {now : Nat} {t : Tracker}
    (still : t.settle table now = t) : t.cut.settle table now = t.cut := by
  have same : t.submissions.map (·.settle table now) = t.submissions.map id := by
    rw [List.map_id]
    exact congrArg Tracker.submissions still
  have each := List.map_inj_left.mp same
  simp only [settle, cut, List.map_map, Tracker.mk.injEq, true_and]
  refine List.map_congr_left ?_
  intro s mem
  exact Submission.settle_cut (each s mem)

namespace Session

variable {s : Session}

/-! ### Nothing is overdue -/

/-- A session that has taken all that is due: nothing changes if no time passes. -/
structure Current (s : Session) : Prop where
  settle : ∀ t ∈ s.trackers, t.settle s.client.errors s.world.now = t
  advance : ∀ w ∈ s.waiters, w.advance s s.world.now = w

theorem Waiter.advance_advance (s : Session) (w : Waiter) :
    (w.advance s s.world.now).advance (s.advance s.world.now) s.world.now =
      w.advance s s.world.now := by
  cases result : w.result with
  | some ended => rw [advance_of_result result, advance_of_result result]
  | none =>
    cases held : s.at? w.place with
    | none =>
      -- the waiter has no submission to look at
      have still : w.advance s s.world.now = w := by
        simp only [advance, result, held]
      have held' : (s.advance s.world.now).at? w.place = none := by
        rw [at?_advance, held]
        rfl
      rw [still]
      simp only [advance, result, held']
    | some sub =>
      cases waited : sub.watch.wait s.client.errors w.level w.deadline sub.feed s.world.now with
      | mk o wake =>
        rw [advance_of_waiting result held waited]
        split
        · exact advance_of_result rfl _ _
        · rename_i running
          have held' : (s.advance s.world.now).at? w.place =
              some (sub.settle s.client.errors s.world.now) := by
            rw [at?_advance, held]
            rfl
          -- what was due has been taken in, so a second look says the same
          have again := (Watch.wait_due s.client.errors w.level w.deadline sub.watch sub.feed
            s.world.now).trans waited
          rw [advance_of_waiting result held' again, if_neg running]

/-- Once the reports due are taken and the waits that are over have ended, nothing is due. -/
theorem current_advance (s : Session) : (s.advance s.world.now).Current where
  settle := by
    intro t mem
    obtain ⟨t, -, rfl⟩ := List.mem_map.mp mem
    exact Tracker.settle_settle s.client.errors (Nat.le_refl _) t
  advance := by
    intro w mem
    obtain ⟨w, -, rfl⟩ := List.mem_map.mp mem
    exact w.advance_advance s

theorem current_step (s : Session) (op : Operation) : (s.step op).2.Current :=
  current_advance (s.turnPage.perform op).2

theorem Current.play (h : s.Current) (ops : List Operation) : (s.play ops).2.Current := by
  induction ops generalizing s with
  | nil => exact h
  | cons op rest ih => exact ih (current_step s op)

theorem current_play (world : World Stage ScriptedCall) (ops : List Operation) :
    (play { world } ops).2.Current :=
  Current.play ⟨by simp, by simp⟩ ops

theorem Current.settle_at (h : s.Current) {p : Place} {sub : Submission}
    (held : s.at? p = some sub) : sub.settle s.client.errors s.world.now = sub := by
  obtain ⟨t, listed, found⟩ := Option.bind_eq_some_iff.mp held
  have same := congrArg (·.submissions[p.index]?) (h.settle t (List.mem_of_getElem? listed))
  simp only [Tracker.settle, List.getElem?_map, found, Option.map_some] at same
  exact Option.some.inj same

/-- A wait that goes on is for a call whose status yields no outcome yet. -/
theorem Current.resolve_eq_none (h : s.Current) {w : Waiter} {sub : Submission}
    (mem : w ∈ s.waiters) (waits : w.result = none) (held : s.at? w.place = some sub) :
    sub.watch.status.resolve w.level = none := by
  have still := h.advance w mem
  cases waited : sub.watch.wait s.client.errors w.level w.deadline sub.feed s.world.now with
  | mk o wake =>
    rw [Waiter.advance_of_waiting waits held waited] at still
    have running : s.world.now < wake := by
      by_contra past
      rw [if_pos (Nat.le_of_not_lt past)] at still
      rw [← still] at waits
      cases waits
    have looks := Watch.looks_wait s.client.errors w.level (max s.world.now w.deadline) sub.watch
      sub.feed s.world.now (Nat.le_max_left ..)
    rw [Watch.wait_max, waited] at looks
    have silent := looks.silent s.world.now (Nat.le_refl _) running
    have seen : sub.watch.after s.client.errors ((sub.feed.due s.world.now).map (·.2)) =
        sub.watch := congrArg Submission.watch (h.settle_at held)
    rw [seen] at silent
    exact (Watch.verdict_eq_none_iff.mp silent).1

/-! ### What every operation keeps -/

/-- All calls handed over so far, oldest first. `Session.sent` has them by account. -/
def calls (s : Session) : List (Sent ScriptedCall) :=
  s.history ++ s.world.sent

theorem history_perform (s : Session) (op : Operation) : (s.perform op).2.history = s.history := by
  cases op with
  | openTracker name account =>
    simp only [perform, openTracker]
    split
    · rfl
    · dsimp only
      split <;> rfl
  | submit tracker name script =>
    simp only [perform, submit]
    split
    · rfl
    · split
      · rfl
      · split <;> rfl
  | deliver name reports =>
    rw [perform]
    split <;> rfl
  | await name level timeout =>
    simp only [perform, await]
    split <;> rfl
  | join waiter =>
    simp only [perform, join]
    split
    · rfl
    · split <;> rfl
  | resync name =>
    rw [perform]
    split
    · rfl
    · split <;> rfl
  | run tracker mode calls options =>
    simp only [perform, run]
    split <;> rfl
  | across batches mode options =>
    simp only [perform, across]
    split <;> rfl
  | close name | drop name | lease name account | release name | status name | nextNonce name
  | created first second | spawnAwait waiter name level timeout =>
    rw [perform]
    split <;> rfl
  | poll | signer | setNonce | setUnavailable | createAbort | abort | dropAbort | isAborted
  | submitted | sleep => rfl

/-- **No call is recalled**: every operation only adds to the calls. -/
theorem calls_step (s : Session) (op : Operation) :
    (s.step op).2.calls = s.calls ++ (s.turnPage.perform op).2.world.sent := by
  show (s.turnPage.perform op).2.history ++ ((s.turnPage.perform op).2.advance _).world.sent = _
  rw [history_perform, sent_advance]
  rfl

theorem calls_play (s : Session) (ops : List Operation) : s.calls <+: (s.play ops).2.calls := by
  induction ops generalizing s with
  | nil => exact List.prefix_refl _
  | cons op rest ih =>
    have first : s.calls <+: (s.step op).2.calls := ⟨_, (calls_step s op).symm⟩
    exact first.trans (ih (s.step op).2)

/-- The accounts that are held in a session. -/
abbrev held (s : Session) : List AccountId :=
  s.world.registry.held

theorem nodup_openTracker (nodup : s.held.Nodup) (name : String) (account : AccountId) :
    (s.openTracker name account).2.held.Nodup := by
  unfold openTracker
  cases opened : Tracker.open_ s.client s.world account with
  | mk answer world =>
    cases answer with
    | error e =>
      show world.registry.held.Nodup
      rw [Tracker.registry_of_open_error opened]
      exact nodup
    | ok t =>
      obtain ⟨free, claimed, -, -, -⟩ := Tracker.open_eq_ok opened
      have nodup' : world.registry.held.Nodup := by
        rw [claimed]
        exact List.nodup_cons.mpr ⟨free, nodup⟩
      dsimp only
      split
      · exact nodup'.erase _
      · exact nodup'

theorem nodup_lease (nodup : s.held.Nodup) (name : String) (account : AccountId) :
    (s.perform (.lease name account)).2.held.Nodup := by
  rw [perform]
  split
  · exact nodup
  · rename_i registry claimed
    obtain ⟨free, rfl⟩ := Registry.acquire?_eq_some_iff.mp claimed
    have nodup' : (account :: s.held).Nodup := List.nodup_cons.mpr ⟨free, nodup⟩
    dsimp only
    cases named? s.leases name with
    | none => exact nodup'
    | some old => exact nodup'.erase old

theorem held_run (s : Session) (tracker : String) (mode : Mode) (calls : List ScriptedCall)
    (options : Options) : (s.run tracker mode calls options).2.held = s.held := by
  unfold run
  split
  · rfl
  · rename_i number t _
    exact congrArg Registry.held (Runner.acts_runBatch s.client s.world t mode options calls).2.1

theorem perm_held_across (s : Session) (batches : List (Batch ScriptedCall)) (mode : Mode)
    (options : Options) : (s.across batches mode options).2.held.Perm s.held := by
  have held := held_runAcross s.client s.world batches mode options
  unfold across
  dsimp only
  split <;> exact held

theorem held_submit (s : Session) (tracker name : String) (script : List (Nat × Act)) :
    (s.submit tracker name script).2.held = s.held := by
  unfold submit
  split
  · rfl
  · split
    · rfl
    · rename_i submitted
      have registry := (Tracker.Submitted.of_submit? submitted).registry
      dsimp only
      split <;> exact congrArg Registry.held registry

/-- **No account is held twice**, whatever is done. -/
theorem nodup_step (nodup : s.held.Nodup) (op : Operation) : (s.step op).2.held.Nodup := by
  have turned : s.turnPage.held.Nodup := nodup
  show (s.turnPage.perform op).2.held.Nodup
  cases op with
  | openTracker name account => exact nodup_openTracker turned name account
  | lease name account => exact nodup_lease turned name account
  | submit tracker name script =>
    rw [perform, held_submit]
    exact turned
  | run tracker mode calls options =>
    rw [perform, held_run]
    exact turned
  | across batches mode options =>
    exact (perm_held_across s.turnPage batches mode options).nodup_iff.mpr turned
  | await name level timeout =>
    simp only [perform, await]
    split
    · exact turned
    · dsimp only
      split <;> exact turned
  | join waiter =>
    simp only [perform, join]
    split
    · exact turned
    · split <;> exact turned
  | resync name =>
    simp only [perform, Tracker.resync]
    split
    · exact turned
    -- a resync sets the cursor of a tracker at most
    · split <;> rename_i answered <;> split at answered <;> cases answered <;> exact turned
  | close name | drop name =>
    rw [perform]
    split
    · exact turned
    · exact turned.erase _
  | release name =>
    rw [perform]
    split
    · exact turned
    · exact turned.erase _
  | deliver name reports | status name | nextNonce name | created first second
  | spawnAwait waiter name level timeout =>
    rw [perform]
    split <;> exact turned
  | poll | signer | setNonce | setUnavailable | createAbort | abort | dropAbort | isAborted
  | submitted | sleep => exact turned

theorem nodup_play (nodup : s.held.Nodup) (ops : List Operation) : (s.play ops).2.held.Nodup := by
  induction ops generalizing s with
  | nil => exact nodup
  | cons op rest ih => exact ih (nodup_step nodup op)

/-! ### Closing -/

theorem at?_retire_eq (s : Session) (name : String) (number : Nat) (p : Place) :
    (s.retire name number).at? p =
      (s.at? p).map fun sub => if p.tracker = number then sub.cut else sub := by
  show (s.trackers.modify number Tracker.cut)[p.tracker]?.bind (·.submissions[p.index]?) =
    ((s.trackers[p.tracker]?).bind (·.submissions[p.index]?)).map _
  rw [List.getElem?_modify]
  cases s.trackers[p.tracker]? with
  | none => rfl
  | some t =>
    by_cases here : p.tracker = number
    · rw [here]
      simp only [if_true, Option.bind_some]
      show (t.submissions.map Submission.cut)[p.index]? = _
      rw [List.getElem?_map]
    · simp [here, Ne.symm here]

/-- A waiter once a tracker is closed: if it still waits for one of its calls, it gives up now. -/
def Waiter.cutOff (s : Session) (number : Nat) (w : Waiter) : Waiter :=
  if w.result = none ∧ w.place.tracker = number ∧ (s.at? w.place).isSome then
    { w with result := some (.timedOut, s.world.now) }
  else w

theorem Closing.registry_eq {tracker : String} {closing : Operation}
    {ends : World Stage ScriptedCall → Tracker → World Stage ScriptedCall}
    (h : Closing tracker closing ends) (w : World Stage ScriptedCall) (t : Tracker) :
    (ends w t).registry = w.registry.release t.account := by
  cases h <;> rfl

theorem Closing.sent_eq {tracker : String} {closing : Operation}
    {ends : World Stage ScriptedCall → Tracker → World Stage ScriptedCall}
    (h : Closing tracker closing ends) (w : World Stage ScriptedCall) (t : Tracker) :
    (ends w t).sent = w.sent := by
  cases h with
  | close => exact World.sent_notify w _
  | drop => rfl

/-- The session right after its tracker was closed, as `s` was before. -/
structure StepClosing (s s' : Session) (name : String) (number : Nat) (t : Tracker) : Prop where
  trackers : s'.trackers = s.trackers.modify number Tracker.cut
  waiters : s'.waiters = s.waiters.map (·.cutOff s number)
  openTrackers : s'.openTrackers = s.openTrackers.filter fun e => e.1 != name
  submissions : s'.submissions = s.submissions
  leases : s'.leases = s.leases
  calls : s'.calls = s.calls
  now : s'.world.now = s.world.now
  node : s'.world.node = s.world.node
  held : s'.held = s.held.erase t.account

/-- Nothing is due either once the tracker is cut. -/
theorem Current.settle_modify (h : s.Current) (number : Nat) :
    (s.trackers.modify number Tracker.cut).map (Tracker.settle s.client.errors s.world.now) =
      s.trackers.modify number Tracker.cut := by
  refine (List.map_congr_left ?_).trans (List.map_id _)
  intro t' mem
  obtain ⟨k, found⟩ := List.mem_iff_getElem?.mp mem
  rw [List.getElem?_modify] at found
  obtain ⟨t, listed, rfl⟩ := Option.map_eq_some_iff.mp found
  have still := h.settle t (List.mem_of_getElem? listed)
  split
  · exact Tracker.settle_cut still
  · exact still

/-- The waiters take note of the closing, and of nothing else. -/
theorem Current.advance_closed (h : s.Current) {number : Nat} {closed : Session} {w : Waiter}
    (mem : w ∈ s.waiters) (now : closed.world.now = s.world.now) (client : closed.client = s.client)
    (places : ∀ p, closed.at? p =
      (s.at? p).map fun sub => if p.tracker = number then sub.cut else sub) :
    w.advance closed s.world.now = w.cutOff s number := by
  have still := h.advance w mem
  have place := places w.place
  -- only a waiter that still waits for a call of the tracker is cut off
  unfold Waiter.cutOff
  cases result : w.result with
  | some ended =>
    rw [Waiter.advance_of_result result, if_neg (by simp)]
  | none =>
    cases held : s.at? w.place with
    | none =>
      rw [held, Option.map_none] at place
      rw [if_neg (by simp)]
      simp only [Waiter.advance, result, place]
    | some sub =>
      rw [held, Option.map_some] at place
      by_cases here : w.place.tracker = number
      · -- nobody reads on, and the status yields nothing
        rw [if_pos here] at place
        have looks := sub.looks_cut s.client.errors w.level (Nat.le_max_left s.world.now w.deadline)
        rw [h.resolve_eq_none mem result held, Option.getD_none] at looks
        have waited := Submission.wait_of_looks _ _ looks
        rw [Watch.wait_max, ← client, ← now] at waited
        rw [Waiter.advance_of_waiting result place waited, now, if_pos (Nat.le_refl _),
          if_pos ⟨rfl, here, rfl⟩]
      · rw [if_neg here] at place
        have same : w.advance closed s.world.now = w.advance s s.world.now := by
          simp only [Waiter.advance, result, place, held, client, now]
        rw [same, still, if_neg (fun cut => here cut.2.1)]

/-- **Closing a tracker**, in a session that has taken all that is due. -/
theorem step_closing (h : s.Current) {name : String} {number : Nat} {t : Tracker}
    (found : s.tracker? name = some (number, t)) {closing : Operation}
    {ends : World Stage ScriptedCall → Tracker → World Stage ScriptedCall}
    (closes : Closing name closing ends) :
    s.StepClosing (s.step closing).2 name number t := by
  let closed : Session := { s.turnPage.retire name number with world := ends s.turnPage.world t }
  have now : closed.world.now = s.world.now := closes.now_eq s.turnPage.world t
  have node : closed.world.node = s.world.node := closes.node_eq s.turnPage.world t
  have client : closed.client = s.client := congrArg (fun n : Stage => Stage.client n.errors) node
  have performed : s.turnPage.perform closing = (.nothing, closed) := closes.perform_eq found
  have stepped : (s.step closing).2 = closed.advance s.world.now := by
    simp only [step, performed, now]
  have places (p : Place) : closed.at? p =
      (s.at? p).map fun sub => if p.tracker = number then sub.cut else sub :=
    at?_retire_eq s.turnPage name number p
  rw [stepped]
  exact {
    trackers := by
      show (s.trackers.modify number Tracker.cut).map
        (Tracker.settle closed.client.errors s.world.now) = _
      rw [client]
      exact h.settle_modify number
    waiters := by
      show s.waiters.map (Waiter.advance closed s.world.now) = _
      refine List.map_congr_left ?_
      intro w mem
      exact h.advance_closed mem now client places
    openTrackers := rfl
    submissions := rfl
    leases := rfl
    calls := by
      show (s.history ++ s.world.sent) ++ (closed.advance s.world.now).world.sent = _
      rw [sent_advance, closes.sent_eq]
      exact List.append_nil _
    now := rfl
    node := node
    held := congrArg Registry.held (closes.registry_eq s.turnPage.world t) }

theorem at?_of_tracker? {name : String} {number i : Nat} {t : Tracker} {sub : Submission}
    (found : s.tracker? name = some (number, t)) (given : t.submissions[i]? = some sub) :
    s.at? ⟨number, i⟩ = some sub := by
  show (s.trackers[number]?).bind (·.submissions[i]?) = _
  rw [getElem?_of_tracker? found]
  exact given

/-- A waiter who is told about the closing says so at once. -/
theorem StepClosing.joined {s' : Session} {name : String} {number : Nat} {t : Tracker}
    (h : s.StepClosing s' name number t) {waiter : String} {w : Waiter} {sub : Submission}
    (mine : s.waiter? waiter = some w) (waits : w.result = none) (here : w.place.tracker = number)
    (held : s.at? w.place = some sub) (held' : ∃ sub', s'.at? w.place = some sub') :
    (s'.step (.join waiter)).1.answer = .ended .timedOut s.world.now ∧
      (s'.step (.join waiter)).1.now = s.world.now := by
  obtain ⟨sub', held'⟩ := held'
  have cut : w.cutOff s number = { w with result := some (.timedOut, s.world.now) } := by
    rw [Waiter.cutOff, if_pos ⟨waits, here, by rw [held]; rfl⟩]
  have mine' : s'.waiter? waiter = some { w with result := some (.timedOut, s.world.now) } := by
    have name_cutOff (w : Waiter) : (w.cutOff s number).name = w.name := by
      unfold Waiter.cutOff
      split <;> rfl
    rw [waiter?, h.waiters, List.find?_map]
    simp only [Function.comp_def, name_cutOff]
    rw [show s.waiters.find? _ = some w from mine, Option.map_some, cut]
  obtain ⟨answered, slept⟩ := step_join_eq mine' held' (by rfl) (Nat.le_refl s'.world.now)
    (by rw [Waiter.advance_of_result rfl])
  refine ⟨answered, ?_⟩
  rw [Nat.sub_self] at slept
  exact (congrArg (·.world.now) slept).trans h.now

/-- Opening a tracker for a free account answers with the nonce that the chain reports. -/
theorem answer_openTracker {account : AccountId} (free : account ∉ s.held) (name : String) :
    (s.step (.openTracker name account)).1.answer =
      match s.world.node.nonce account with
      | .ok nonce => .opened account nonce
      | .error cause => .failed (.chainUnavailable account cause) := by
  have free' : account ∉ s.turnPage.world.registry.held := free
  cases answer : s.world.node.nonce account with
  | ok nonce =>
    have asked : s.turnPage.client.nonce s.turnPage.world.node s.turnPage.world.now account =
        (.ok nonce, s.world.node) := congrArg (·, s.world.node) answer
    simp only [step, perform, openTracker, Tracker.open_of_nonce free' asked]
    rfl
  | error cause =>
    have asked : s.turnPage.client.nonce s.turnPage.world.node s.turnPage.world.now account =
        (.error cause, s.world.node) := congrArg (·, s.world.node) answer
    simp only [step, perform, openTracker, Tracker.open_of_unread free' asked]

/-- Every wait for a call that nobody watches any more ends at once, with what the status yields. -/
theorem gives_of_cut {name : String} {p : Place} {sub : Submission} {w : Watch}
    (known : s.submission? name = some (p, sub)) (watch : sub.watch = w.cut) (level : Level)
    (timeout : Nat) :
    s.Gives name level timeout ((w.status.resolve level).getD .timedOut) s.world.now := by
  have told : (sub.watchAt s.client.errors s.world.now).verdict level =
      some ((w.status.resolve level).getD .timedOut) := by
    have still : sub.watchAt s.client.errors s.world.now = sub.watch :=
      Watch.after_of_not_reading _ (by rw [watch]; rfl) _
    rw [still, watch, Watch.verdict_cut]
  have waited := Submission.wait_of_looks s.client.errors sub
    (.at_once (Nat.le_add_right s.world.now timeout) told)
  have given := Session.gives known level timeout
  rw [Submission.wait, waited] at given
  exact given

/-- **What closing a tracker ends, and what it leaves alone**: `s` is the session before, `s'` the
one right after, and `s''` any that comes of it. -/
structure Closed (s s' s'' : Session) (name : String) (number : Nat) (t : Tracker) : Prop where
  /-- The statuses of the calls stay as they are. -/
  frozen : ∀ (i : Nat) sub, t.submissions[i]? = some sub →
    ∃ sub'', s''.at? ⟨number, i⟩ = some sub'' ∧ sub''.watch = sub.watch.cut
  /-- Every later wait ends at once: with what the status yields, or else as timed out. -/
  later : ∀ (i : Nat) sub, t.submissions[i]? = some sub →
    ∀ called sub'', s''.submission? called = some (⟨number, i⟩, sub'') → ∀ level timeout,
      s''.Gives called level timeout ((sub.watch.status.resolve level).getD .timedOut) s''.world.now
  /-- The waits in progress for the calls end as timed out, all others go on. -/
  waiters : s'.waiters = s.waiters.map (·.cutOff s number)
  /-- A wait in progress is for a status that yields nothing, and whoever waits is told at once. -/
  joined : ∀ waiter w sub, s.waiter? waiter = some w → w.result = none →
    w.place.tracker = number → s.at? w.place = some sub →
    sub.watch.status.resolve w.level = none ∧
      (s'.step (.join waiter)).1.answer = .ended .timedOut s.world.now ∧
      (s'.step (.join waiter)).1.now = s.world.now
  /-- No call is recalled. -/
  calls : s'.calls = s.calls ∧ s.calls <+: s''.calls
  /-- All other trackers are as they were. -/
  others : ∀ other, other ≠ number → s'.trackers[other]? = s.trackers[other]?
  names : s'.submissions = s.submissions ∧
    s'.openTrackers = s.openTrackers.filter fun e => e.1 != name
  now : s'.world.now = s.world.now
  node : s'.world.node = s.world.node
  /-- A tracker for the account can be opened, at the nonce that the chain reports. -/
  reopened : ∀ again, (s'.step (.openTracker again t.account)).1.answer =
    match s.world.node.nonce t.account with
    | .ok nonce => .opened t.account nonce
    | .error cause => .failed (.chainUnavailable t.account cause)

/-- **Closing a tracker is for good, and for its calls only.** In every run from an empty session
with a scripted chain: once an open tracker is closed or dropped, its calls keep their statuses
whatever operations come then, and all later waits for them end at once by these; the waits in
progress give up. All calls, trackers and waits of others are left alone, and the account is free
for a new tracker. -/
theorem closed_for_good (node : Stage) (before between : List Operation) {name : String}
    {closing : Operation} (closes : closing = .close name ∨ closing = .drop name) {number : Nat}
    {t : Tracker} :
    let s := (play { world := { node } } before).2
    let s' := (s.step closing).2
    let s'' := (s'.play between).2
    s.tracker? name = some (number, t) → s.Closed s' s'' name number t := by
  intro s s' s'' found
  obtain ⟨ends, closes⟩ : ∃ ends, Closing name closing ends := by
    rcases closes with rfl | rfl
    · exact ⟨_, .close⟩
    · exact ⟨_, .drop⟩
  have current : s.Current := current_play { node } before
  have nodup : s.held.Nodup := nodup_play (s := { world := { node } }) List.nodup_nil before
  have stepped : s.StepClosing s' name number t := step_closing current found closes
  have listed := getElem?_of_tracker? found
  have onward : s'.Onward s'' := onward_play s' between
  -- right after the closing, the calls of the tracker are cut where they stand, and a stopped watch
  -- stays as it is
  have cut (i : Nat) (sub : Submission) (given : t.submissions[i]? = some sub) :
      s'.at? ⟨number, i⟩ = some sub.cut := by
    show s'.trackers[number]?.bind (·.submissions[i]?) = _
    rw [stepped.trackers, List.getElem?_modify_eq, listed]
    show (t.submissions.map Submission.cut)[i]? = _
    rw [List.getElem?_map, given, Option.map_some]
  have frozen (i : Nat) (sub : Submission) (given : t.submissions[i]? = some sub) :
      ∃ sub'', s''.at? ⟨number, i⟩ = some sub'' ∧ sub''.watch = sub.watch.cut := by
    obtain ⟨sub'', held, goes⟩ := onward.at? (cut i sub given)
    exact ⟨sub'', held, goes.stopped rfl⟩
  exact {
    frozen
    later := by
      intro i sub given called sub'' known level timeout
      obtain ⟨same, held, watch⟩ := frozen i sub given
      obtain rfl := Option.some.inj ((at?_of_submission? known).symm.trans held)
      exact gives_of_cut known watch level timeout
    waiters := stepped.waiters
    joined := by
      intro waiter w sub mine waits here held
      refine ⟨current.resolve_eq_none (List.mem_of_find?_eq_some mine) waits held, ?_⟩
      refine stepped.joined mine waits here held ⟨sub.cut, ?_⟩
      -- a waiter at a call of the tracker is cut off with it
      obtain ⟨t', listed', given⟩ := Option.bind_eq_some_iff.mp held
      rw [here, listed] at listed'
      obtain rfl := Option.some.inj listed'
      have place : w.place = ⟨number, w.place.index⟩ := by rw [← here]
      rw [place]
      exact cut _ sub given
    calls := ⟨stepped.calls, stepped.calls ▸ calls_play s' between⟩
    others := by
      intro other ne
      rw [stepped.trackers, List.getElem?_modify]
      simp [Ne.symm ne]
    names := ⟨stepped.submissions, stepped.openTrackers⟩
    now := stepped.now
    node := stepped.node
    reopened := by
      intro again
      rw [← stepped.node]
      -- the account was held once, so the closing has released it
      refine answer_openTracker ?_ again
      rw [stepped.held]
      exact nodup.not_mem_erase }

/-- A tracker that is closed with one call final and another one waited for. The wait gives up; what
is reported of the call later changes nothing, and the final call is still accepted. -/
theorem closed_for_good_waited :
    let block := BlockHash.ofNat 1
    let overlord : AccountId := .ofNat 1
    let before : List Operation :=
      [.openTracker "tracker" overlord,
        .submit "tracker" "final" [(5, .report (.event (.finalized block [])))],
        .submit "tracker" "open" [(5, .report (.event (.inBlock block)))],
        .spawnAwait "waiter" "open" .finalized 100, .sleep 20]
    let between : List Operation := [.deliver "open" [.finished], .sleep 30]
    let s := (play { world := { node := {} } } before).2
    let s' := (s.step (.close "tracker")).2
    let s'' := (s'.play between).2
    (s.tracker? "tracker").map (·.1) = some 0 ∧
      (s'.step (.join "waiter")).1.answer = .ended .timedOut 20 ∧
      (s''.step (.await "open" .inBlock 10)).1.answer = .outcome (.accepted block) ∧
      (s''.step (.await "open" .finalized 10)).1.answer = .outcome .timedOut ∧
      (s''.step (.await "final" .finalized 10)).1.answer = .outcome (.accepted block) ∧
      (s'.step (.openTracker "again" overlord)).1.answer = .opened overlord 0 := by
  intro block overlord before between s s' s''
  have known : (s.tracker? "tracker").map (fun e => (e.1, e.2.account)) = some (0, overlord) := by
    decide +kernel
  have statuses : (s.tracker? "tracker").map (·.2.submissions.map (·.watch.status)) =
      some [.finalized block none, .inBlock block] := by decide +kernel
  have waits : (s.waiter? "waiter").map (fun w => (w.place, w.result)) = some (⟨0, 1⟩, none) := by
    decide +kernel
  have final : (s''.submission? "final").map (·.1) = some ⟨0, 0⟩ := by decide +kernel
  have opened : (s''.submission? "open").map (·.1) = some ⟨0, 1⟩ := by decide +kernel
  have reports : s.world.node.nonce overlord = .ok 0 := by decide +kernel
  obtain ⟨⟨number, t⟩, found, same⟩ := Option.map_eq_some_iff.mp known
  obtain ⟨rfl, account⟩ := Prod.mk.inj same
  obtain ⟨w, mine, same⟩ := Option.map_eq_some_iff.mp waits
  obtain ⟨place, running⟩ := Prod.mk.inj same
  obtain ⟨⟨p₀, sub₀⟩, final, rfl⟩ := Option.map_eq_some_iff.mp final
  obtain ⟨⟨p₁, sub₁⟩, opened, rfl⟩ := Option.map_eq_some_iff.mp opened
  -- the two calls of the tracker, one of them final and one in a block
  rw [found] at statuses
  obtain ⟨first, rest, listed, status₀, statuses⟩ :=
    List.map_eq_cons_iff.mp (Option.some.inj statuses)
  obtain ⟨second, rest, rfl, status₁, statuses⟩ := List.map_eq_cons_iff.mp statuses
  have given₀ : t.submissions[0]? = some first := by rw [listed]; rfl
  have given₁ : t.submissions[1]? = some second := by rw [listed]; rfl
  have closed : s.Closed s' s'' "tracker" 0 t :=
    closed_for_good {} before between (Or.inl rfl) found
  have held : s.at? w.place = some second := by
    rw [place]
    exact at?_of_tracker? found given₁
  refine ⟨by rw [found]; rfl, ?_, ?_, ?_, ?_, ?_⟩
  · exact (closed.joined "waiter" w second mine running (by rw [place]) held).2.1
  · have given := closed.later 1 second given₁ "open" sub₁ opened .inBlock 10
    rw [status₁] at given
    exact given.foreground.1
  · have given := closed.later 1 second given₁ "open" sub₁ opened .finalized 10
    rw [status₁] at given
    exact given.foreground.1
  · have given := closed.later 0 first given₀ "final" sub₀ final .finalized 10
    rw [status₀] at given
    exact given.foreground.1
  · rw [show overlord = t.account from account.symm] at reports ⊢
    rw [closed.reopened "again", reports]

end Session

end ShellSale
