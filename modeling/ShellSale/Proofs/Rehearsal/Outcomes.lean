import ShellSale.Proofs.Batch.Work
import ShellSale.Proofs.Rehearsal.Waits

/-!
## Outcomes that stay

Whoever waits for a call at the finalized level and is not timed out, and whoever learns at any
level that a call failed, is invalid or was dropped, knows what became of the call for good. All
later waits for it give the same outcome at once, whatever else happens in the session.

* `Session.Onward` is all that operations do to submissions and waiters: a watch that nobody reads
  stays as it is, and a waiter that gets a result gets it from the status of its submission
  (`onward_step`, one case per operation, and `onward_play`).
* `Session.Settled` says that a submission yields one outcome at every level; nothing undoes it
  (`Onward.settled`), and every wait gives that outcome (`Settled.gives`).
* `Session.conclusive_for_good` is the main result.
-/

namespace ShellSale

/-! ### Outcomes that settle a call -/

/-- An outcome that leaves nothing open to whoever waits at a level: anything but a timeout at the
finalized level, and a failure, an invalid or a dropped call at every level. -/
def Outcome.IsConclusive (o : Outcome) (level : Level) : Prop :=
  (level = .finalized ∧ o ≠ .timedOut) ∨ (∃ reason, o = .failed reason) ∨
    (∃ message, o = .invalid message) ∨ ∃ message, o = .dropped message

theorem Outcome.IsConclusive.ne_timedOut {o : Outcome} {level : Level} (h : o.IsConclusive level) :
    o ≠ .timedOut := by
  rcases h with ⟨-, ne⟩ | ⟨reason, rfl⟩ | ⟨message, rfl⟩ | ⟨message, rfl⟩
  · exact ne
  all_goals simp

/-- A status that yields a conclusive outcome at one level is terminal. -/
theorem Status.isTerminal_of_conclusive {s : Status} {o : Outcome} {level : Level}
    (resolved : s.resolve level = some o) (h : o.IsConclusive level) : s.isTerminal = true := by
  rcases h with ⟨rfl, -⟩ | some
  · exact isTerminal_of_resolve resolved
  · -- the only other outcome is the acceptance of a call in a block that is not final
    cases s with
    | pending => cases resolved
    | inBlock block =>
      cases level with
      | finalized => cases resolved
      | inBlock =>
        obtain rfl := Option.some.inj resolved
        rcases some with ⟨_, eq⟩ | ⟨_, eq⟩ | ⟨_, eq⟩ <;> cases eq
    | finalized block failure => rfl
    | invalid message => rfl
    | dropped message => rfl

/-- A terminal status yields at every level what it yields at one. -/
theorem Status.resolve_eq_of_isTerminal {s : Status} {o : Outcome} {level : Level}
    (terminal : s.isTerminal = true) (resolved : s.resolve level = some o) (level' : Level) :
    s.resolve level' = some o := by
  obtain ⟨o', at_level, at_level'⟩ := resolve_of_isTerminal terminal level level'
  rw [at_level', ← at_level, resolved]

namespace Watch

/-! ### Watches go on -/

/-- What may become of a watch: it stays sound, and once nobody reads it stays as it is. -/
structure Onward (w w' : Watch) : Prop where
  sound : w.Sound → w'.Sound
  stopped : w.reading = false → w' = w

theorem Onward.refl (w : Watch) : w.Onward w where
  sound := id
  stopped _ := rfl

theorem Onward.trans {w w' w'' : Watch} (h : w.Onward w') (h' : w'.Onward w'') :
    w.Onward w'' where
  sound := h'.sound ∘ h.sound
  stopped stopped := by
    obtain rfl := h.stopped stopped
    exact h'.stopped stopped

theorem onward_after (table : ErrorTable) (w : Watch) (rs : List Report) :
    w.Onward (w.after table rs) where
  sound h := h.after table rs
  stopped h := after_of_not_reading table h rs

theorem onward_cut (w : Watch) : w.Onward w.cut where
  sound _ _ := rfl
  stopped h := by
    cases w
    cases h
    rfl

/-- A wait whose deadline is past goes as one whose deadline is now. -/
theorem wait_max (table : ErrorTable) (level : Level) (deadline : Nat) (w : Watch) (feed : Feed)
    (now : Nat) :
    wait table level (max now deadline) w feed now = wait table level deadline w feed now := by
  induction feed generalizing w now with
  | nil =>
    unfold wait
    split
    · rfl
    · rw [← max_assoc, max_self]
  | cons head rest ih =>
    obtain ⟨at_, r⟩ := head
    unfold wait
    by_cases due : at_ ≤ now
    · rw [if_pos due, if_pos due]
      exact ih (w.next table r) now
    · rw [if_neg due, if_neg due]
      split
      · rfl
      · by_cases timely : at_ ≤ deadline
        · have late : max now deadline = deadline := by omega
          rw [late, if_pos timely, if_pos timely]
        · have missed : ¬at_ ≤ max now deadline := by omega
          rw [if_neg timely, if_neg missed, ← max_assoc, max_self]

end Watch

/-- An outcome that is no timeout is what the status yields at the end of the wait. -/
theorem Submission.resolve_of_watch_wait (table : ErrorTable) {level : Level}
    {now deadline wake : Nat} {s : Submission} {o : Outcome}
    (h : s.watch.wait table level deadline s.feed now = (o, wake)) (ne : o ≠ .timedOut) :
    (s.settle table wake).watch.status.resolve level = some o := by
  have within : s.wait table level now (max now deadline - now) = (o, wake) := by
    rw [wait, Nat.add_sub_of_le (Nat.le_max_left ..), Watch.wait_max, h]
  exact resolve_of_wait table within ne

/-! ### Lists go on -/

/-- A list that goes on as another: each place keeps what it has, changed as `R` allows, and what
comes at new places has the property `P`. -/
structure Continues {α : Type} (R : α → α → Prop) (P : α → Prop) (xs ys : List α) : Prop where
  kept : ∀ (i : Nat) (x : α), xs[i]? = some x → ∃ y, ys[i]? = some y ∧ R x y
  new : ∀ (i : Nat) (y : α), xs[i]? = none → ys[i]? = some y → P y

namespace Continues

variable {α : Type} {R : α → α → Prop} {P : α → Prop} {xs ys zs : List α}

theorem refl (same : ∀ x, R x x) (xs : List α) : Continues R P xs xs where
  kept _ x found := ⟨x, found, same x⟩
  new i y none found := by
    rw [none] at found
    cases found

theorem trans (comp : ∀ {x y z}, R x y → R y z → R x z) (keeps : ∀ {x y}, R x y → P x → P y)
    (h : Continues R P xs ys) (h' : Continues R P ys zs) : Continues R P xs zs where
  kept i x found := by
    obtain ⟨y, found', first⟩ := h.kept i x found
    obtain ⟨z, found'', second⟩ := h'.kept i y found'
    exact ⟨z, found'', comp first second⟩
  new i z none found := by
    cases between : ys[i]? with
    | none => exact h'.new i z between found
    | some y =>
      obtain ⟨z', found', step⟩ := h'.kept i y between
      obtain rfl := Option.some.inj (found'.symm.trans found)
      exact keeps step (h.new i y none between)

theorem map {f : α → α} (step : ∀ x, R x (f x)) (xs : List α) : Continues R P xs (xs.map f) where
  kept i x found := ⟨f x, by rw [List.getElem?_map, found, Option.map_some], step x⟩
  new i y none found := by
    rw [List.getElem?_map, none] at found
    cases found

theorem append (same : ∀ x, R x x) (xs : List α) {new : List α} (all : ∀ y ∈ new, P y) :
    Continues R P xs (xs ++ new) where
  kept i x found := by
    obtain ⟨bound, -⟩ := List.getElem?_eq_some_iff.mp found
    exact ⟨x, by rw [List.getElem?_append_left bound, found], same x⟩
  new i y none found := by
    have bound : xs.length ≤ i := List.getElem?_eq_none_iff.mp none
    rw [List.getElem?_append_right bound] at found
    exact all y (List.mem_of_getElem? found)

theorem modify (same : ∀ x, R x x) {f : α → α} (step : ∀ x, R x (f x)) (xs : List α) (k : Nat) :
    Continues R P xs (xs.modify k f) where
  kept i x found := by
    rw [List.getElem?_modify, found]
    by_cases here : k = i
    · exact ⟨f x, by simp [here], step x⟩
    · exact ⟨x, by simp [here], same x⟩
  new i y none found := by
    rw [List.getElem?_modify, none] at found
    cases found

/-- One place takes `y`, and all others change by `f`. -/
theorem map_set {f : α → α} (step : ∀ x, R x (f x)) {k : Nat} {x y : α} (found : xs[k]? = some x)
    (here : R x y) : Continues R P xs ((xs.map f).set k y) where
  kept i x' found' := by
    obtain ⟨bound, -⟩ := List.getElem?_eq_some_iff.mp found
    by_cases same : k = i
    · subst same
      obtain rfl := Option.some.inj (found.symm.trans found')
      rw [← List.length_map f] at bound
      exact ⟨y, List.getElem?_set_self bound, here⟩
    · refine ⟨f x', ?_, step x'⟩
      rw [List.getElem?_set_ne same, List.getElem?_map, found', Option.map_some]
  new i y' none found' := by
    rw [List.getElem?_eq_none_iff] at none
    obtain ⟨bound, -⟩ := List.getElem?_eq_some_iff.mp found'
    rw [List.length_set, List.length_map] at bound
    omega

theorem set (same : ∀ x, R x x) {k : Nat} {x y : α} (found : xs[k]? = some x) (here : R x y) :
    Continues R P xs (xs.set k y) := by
  have changed : Continues R P xs ((xs.map id).set k y) := map_set same found here
  rwa [List.map_id] at changed

theorem forall_mem (keeps : ∀ {x y}, R x y → P x → P y) (h : Continues R P xs ys)
    (all : ∀ x ∈ xs, P x) : ∀ y ∈ ys, P y := by
  intro y mem
  obtain ⟨i, bound, rfl⟩ := List.mem_iff_getElem.mp mem
  have found : ys[i]? = some ys[i] := List.getElem?_eq_getElem bound
  cases before : xs[i]? with
  | none => exact h.new i ys[i] before found
  | some x =>
    obtain ⟨y, found', step⟩ := h.kept i x before
    obtain rfl := Option.some.inj (found'.symm.trans found)
    exact keeps step (all x (List.mem_of_getElem? before))

end Continues

/-! ### Trackers go on -/

namespace Tracker

/-- All watches of a tracker are sound. -/
def Sound (t : Tracker) : Prop :=
  ∀ s ∈ t.submissions, s.watch.Sound

/-- What may become of a tracker: each submission stays in its place while its watch goes on, and
those that are added are sound. -/
def Onward (t t' : Tracker) : Prop :=
  Continues (fun s s' : Submission => s.watch.Onward s'.watch) (fun s => s.watch.Sound)
    t.submissions t'.submissions

theorem Onward.refl (t : Tracker) : t.Onward t :=
  Continues.refl (fun s => .refl s.watch) t.submissions

theorem Onward.trans {t t' t'' : Tracker} (h : t.Onward t') (h' : t'.Onward t'') : t.Onward t'' :=
  Continues.trans (fun first second => first.trans second) (fun step => step.sound) h h'

theorem Onward.sound {t t' : Tracker} (h : t.Onward t') (sound : t.Sound) : t'.Sound :=
  Continues.forall_mem (fun step => step.sound) h sound

/-- It does not matter in how many steps time passes. -/
theorem settle_settle (table : ErrorTable) {now later : Nat} (le : now ≤ later) (t : Tracker) :
    (t.settle table now).settle table later = t.settle table later := by
  simp only [settle, List.map_map, Function.comp_def, Submission.settle_settle table le]

theorem onward_settle (table : ErrorTable) (now : Nat) (t : Tracker) :
    t.Onward (t.settle table now) := by
  apply Continues.map
  intro s
  exact Watch.onward_after table s.watch _

theorem onward_cut (t : Tracker) : t.Onward t.cut := by
  apply Continues.map
  intro s
  exact s.watch.onward_cut

end Tracker

namespace Session

variable {s s' s'' : Session} {p : Place} {sub : Submission} {o : Outcome}

/-! ### Sessions go on -/

/-- All watches of a session are sound. -/
def Sound (s : Session) : Prop :=
  ∀ t ∈ s.trackers, t.Sound

/-- The submission at a place has come to its end: it yields one outcome at every level. -/
def Settled (s : Session) (p : Place) (o : Outcome) : Prop :=
  ∃ sub, s.at? p = some sub ∧ sub.watch.Sound ∧ ∀ level, sub.watch.status.resolve level = some o

/-- A conclusive result of a waiter is the outcome that its submission has come to. -/
def Waiter.Right (s : Session) (w : Waiter) : Prop :=
  ∀ o at_, w.result = some (o, at_) → o.IsConclusive w.level → s.Settled w.place o

/-- What may become of a session with sound watches: its trackers go on, and each waiter is as it
was before or has no result but a right one. -/
structure Onward (s s' : Session) : Prop where
  trackers : Continues Tracker.Onward Tracker.Sound s.trackers s'.trackers
  waiters : s.Sound → ∀ w ∈ s'.waiters, w ∈ s.waiters ∨ w.Right s'

theorem Sound.watch (h : s.Sound) (held : s.at? p = some sub) : sub.watch.Sound := by
  obtain ⟨t, listed, found⟩ := Option.bind_eq_some_iff.mp held
  exact h t (List.mem_of_getElem? listed) sub (List.mem_of_getElem? found)

theorem trackers_trans {first second third : List Tracker}
    (h : Continues Tracker.Onward Tracker.Sound first second)
    (h' : Continues Tracker.Onward Tracker.Sound second third) :
    Continues Tracker.Onward Tracker.Sound first third :=
  h.trans (fun step step' => step.trans step') (fun step => step.sound) h'

theorem Onward.sound (h : s.Onward s') (sound : s.Sound) : s'.Sound :=
  Continues.forall_mem (fun step => step.sound) h.trackers sound

theorem Onward.at? (h : s.Onward s') (held : s.at? p = some sub) :
    ∃ sub', s'.at? p = some sub' ∧ sub.watch.Onward sub'.watch := by
  obtain ⟨t, listed, held⟩ := Option.bind_eq_some_iff.mp held
  obtain ⟨t', listed', goes⟩ := h.trackers.kept p.tracker t listed
  obtain ⟨sub', held', step⟩ := goes.kept p.index sub held
  exact ⟨sub', Option.bind_eq_some_iff.mpr ⟨t', listed', held'⟩, step⟩

/-- Nothing undoes an outcome that a submission has come to. -/
theorem Onward.settled (h : s.Onward s') (settled : s.Settled p o) : s'.Settled p o := by
  obtain ⟨sub, held, sound, resolved⟩ := settled
  obtain ⟨sub', held', step⟩ := h.at? held
  have stopped : sub.watch.reading = false :=
    sound (Status.isTerminal_of_resolve (resolved .finalized))
  refine ⟨sub', held', step.sound sound, ?_⟩
  rw [step.stopped stopped]
  exact resolved

theorem Onward.right (h : s.Onward s') {w : Waiter} (right : w.Right s) : w.Right s' :=
  fun o at_ result conclusive => h.settled (right o at_ result conclusive)

theorem Onward.trans (h : s.Onward s') (h' : s'.Onward s'') : s.Onward s'' where
  trackers := trackers_trans h.trackers h'.trackers
  waiters sound w mem := by
    rcases h'.waiters (h.sound sound) w mem with mem | right
    · rcases h.waiters sound w mem with mem | right
      · exact Or.inl mem
      · exact Or.inr (h'.right right)
    · exact Or.inr right

/-- A session with other trackers, and with the same waiters. -/
theorem Onward.of_trackers
    (trackers : Continues Tracker.Onward Tracker.Sound s.trackers s'.trackers)
    (waiters : s'.waiters = s.waiters) : s.Onward s' where
  trackers := trackers
  waiters _ _ mem := Or.inl (waiters ▸ mem)

/-- A session with the same trackers and waiters. -/
theorem Onward.of_eq (trackers : s'.trackers = s.trackers) (waiters : s'.waiters = s.waiters) :
    s.Onward s' := by
  refine .of_trackers ?_ waiters
  rw [trackers]
  exact .refl Tracker.Onward.refl s.trackers

/-- What is true of a session in which only operations have been performed. -/
structure Coherent (s : Session) : Prop where
  sound : s.Sound
  right : ∀ w ∈ s.waiters, w.Right s

theorem Coherent.onward (h : s.Coherent) (step : s.Onward s') : s'.Coherent where
  sound := step.sound h.sound
  right w mem := by
    rcases step.waiters h.sound w mem with mem | right
    · exact step.right (h.right w mem)
    · exact right

/-! ### Time passes -/

/-- A submission that yields a conclusive outcome at a moment is settled from then on. -/
theorem settled_of_resolve (table : ErrorTable) {level : Level} {wake now : Nat}
    (sound : sub.watch.Sound)
    (resolved : (sub.settle table wake).watch.status.resolve level = some o)
    (conclusive : o.IsConclusive level) (le : wake ≤ now)
    (held : s.at? p = some (sub.settle table now)) : s.Settled p o := by
  have terminal := Status.isTerminal_of_conclusive resolved conclusive
  refine ⟨_, held, sound.after table _, ?_⟩
  rw [Submission.status_settle_of_isTerminal table sound le terminal]
  exact Status.resolve_eq_of_isTerminal terminal resolved

/-- Waiters get their results from the statuses of the submissions that they wait for. -/
theorem right_advance (sound : s.Sound) {later : Nat}
    (settles : ∀ p sub, s.at? p = some sub →
      s'.at? p = some (sub.settle s.client.errors later))
    {w : Waiter} (mem : w ∈ s.waiters.map (·.advance s later)) : w ∈ s.waiters ∨ w.Right s' := by
  obtain ⟨w, was, rfl⟩ := List.mem_map.mp mem
  cases result : w.result with
  | some ended =>
    left
    rw [Waiter.advance_of_result result]
    exact was
  | none =>
    cases held : s.at? w.place with
    | none =>
      left
      rw [Waiter.advance]
      simpa only [result, held] using was
    | some sub =>
      cases waited : sub.watch.wait s.client.errors w.level w.deadline sub.feed s.world.now with
      | mk o wake =>
        rw [Waiter.advance_of_waiting result held waited later]
        split
        · rename_i past
          right
          -- the waiter ends now: what it was told lasts if it is conclusive
          intro o' at_ ended conclusive
          cases ended
          have resolved := Submission.resolve_of_watch_wait _ waited conclusive.ne_timedOut
          exact settled_of_resolve _ (sound.watch held) resolved conclusive past
            (settles w.place sub held)
        · exact Or.inl was

theorem onward_advance (s : Session) (later : Nat) : s.Onward (s.advance later) where
  trackers := .map (fun t => t.onward_settle s.client.errors later) s.trackers
  waiters sound w mem := by
    refine right_advance sound ?_ mem
    intro p sub held
    rw [at?_advance, held, Option.map_some]

/-! ### One lemma per operation -/

theorem onward_retire (s : Session) (name : String) (number : Nat) :
    s.Onward (s.retire name number) :=
  .of_trackers (.modify Tracker.Onward.refl Tracker.onward_cut s.trackers number) rfl

theorem onward_openTracker (s : Session) (name : String) (account : AccountId) :
    s.Onward (s.openTracker name account).2 := by
  unfold openTracker
  cases opened : Tracker.open_ s.client s.world account with
  | mk answer world =>
    cases answer with
    | error e => exact .of_eq rfl rfl
    | ok t =>
      obtain ⟨-, -, -, empty, -⟩ := Tracker.open_eq_ok opened
      -- there is no submission yet that could break the invariant
      have sound : ∀ t' ∈ [t], t'.Sound := by
        rintro t' mem sub held
        rw [List.mem_singleton.mp mem, empty] at held
        cases held
      -- the new tracker comes behind the others, one of which may be retired
      have added : ∀ s' : Session, s.Onward s' → s.Onward
          { s' with
            trackers := s'.trackers ++ [t]
            openTrackers := (name, s'.trackers.length) :: s'.openTrackers } := by
        intro s' before
        exact before.trans (.of_trackers (.append Tracker.Onward.refl _ sound) rfl)
      apply added
      dsimp only
      split
      · exact (onward_retire s name _).trans (.of_eq rfl rfl)
      · exact .of_eq rfl rfl

theorem getElem?_of_tracker? {name : String} {number : Nat} {t : Tracker}
    (found : s.tracker? name = some (number, t)) : s.trackers[number]? = some t := by
  simp only [tracker?, Option.bind_eq_bind, Option.bind_eq_some_iff, Option.pure_def,
    Option.some.injEq, Prod.mk.injEq] at found
  obtain ⟨number, -, t, listed, rfl, rfl⟩ := found
  exact listed

theorem onward_submit (s : Session) (tracker name : String) (script : List (Nat × Act)) :
    s.Onward (s.submit tracker name script).2 := by
  unfold submit
  cases found : s.tracker? tracker with
  | none => exact .of_eq rfl rfl
  | some entry =>
    obtain ⟨number, t⟩ := entry
    dsimp only
    cases submitted : t.submit? s.client s.world ⟨name, script⟩ with
    | none => exact .of_eq rfl rfl
    | some result =>
      obtain ⟨world, t', submission⟩ := result
      have handed := Tracker.Submitted.of_submit? submitted
      -- the tracker only gets a fresh submission, about which nobody was told anything yet
      have goes : t.Onward t' := by
        unfold Tracker.Onward
        rw [handed.submissions]
        refine .append (fun s => .refl s.watch) _ ?_
        intro sub mem
        rw [List.mem_singleton.mp mem]
        exact Submission.sound_of_fresh handed.submission.2.2
      let added : Session :=
        { (s.setTracker number t') with
          world
          submissions := (name, ⟨number, t'.submissions.length - 1⟩) :: s.submissions }
      have set : s.Onward added :=
        .of_trackers (.set Tracker.Onward.refl (getElem?_of_tracker? found) goes) rfl
      have onward := set.trans (onward_advance added world.now)
      dsimp only
      split <;> exact onward

theorem onward_await (s : Session) (name : String) (level : Level) (timeout : Nat) :
    s.Onward (s.await name level timeout).2 := by
  unfold await
  split
  · exact .of_eq rfl rfl
  · exact (onward_advance s _).trans (.of_eq rfl rfl)

theorem onward_join (s : Session) (name : String) : s.Onward (s.join name).2 := by
  unfold join
  split
  · exact .of_eq rfl rfl
  · dsimp only
    split <;> exact onward_advance s _

/-- Reports that are delivered change no watch before they are taken. -/
theorem onward_modifyAt (s : Session) (p : Place) {f : Submission → Submission}
    (same : ∀ sub, (f sub).watch = sub.watch) : s.Onward (s.modifyAt p f) := by
  refine .of_trackers (.modify Tracker.Onward.refl ?_ s.trackers p.tracker) rfl
  intro t
  refine .modify (fun s => .refl s.watch) ?_ t.submissions p.index
  intro sub
  rw [same]
  exact .refl sub.watch

/-- A new waiter has no result yet. -/
theorem onward_spawnAwait (s : Session) (waiter name : String) (level : Level) (timeout : Nat) :
    s.Onward (s.perform (.spawnAwait waiter name level timeout)).2 := by
  rw [perform]
  split
  · exact .of_eq rfl rfl
  · refine ⟨.refl Tracker.Onward.refl s.trackers, ?_⟩
    intro _ w mem
    rcases List.mem_append.mp mem with mem | mem
    · exact Or.inl (List.mem_of_mem_filter mem)
    · right
      intro o at_ result
      rw [List.mem_singleton.mp mem] at result
      cases result

theorem onward_resync (s : Session) (name : String) : s.Onward (s.perform (.resync name)).2 := by
  rw [perform]
  cases found : s.tracker? name with
  | none => exact .of_eq rfl rfl
  | some entry =>
    obtain ⟨number, t⟩ := entry
    dsimp only
    unfold Tracker.resync
    split <;> rename_i answered
    · split at answered <;> cases answered
      exact .of_eq rfl rfl
    · split at answered <;> cases answered
      have same : t.Onward { t with cursor := t.cursor.reset _ } := Tracker.Onward.refl t
      exact .of_trackers (.set Tracker.Onward.refl (getElem?_of_tracker? found) same) rfl

theorem onward_across (s : Session) (batches : List (Batch ScriptedCall)) (mode : Mode)
    (options : Options) : s.Onward (s.across batches mode options).2 := by
  let world := (runAcross s.client s.world batches mode options).2
  let before : Session := { s with world := { world with now := s.world.now } }
  have same : s.Onward before := .of_eq rfl rfl
  have onward := same.trans (onward_advance before world.now)
  unfold across
  dsimp only
  split <;> exact onward

/-- A scripted chain stays in its state, whatever the pipeline does. -/
theorem node_of_course {errors : List (UInt8 × UInt8 × PalletError)}
    {w w' : World Stage ScriptedCall} (h : World.Course (Stage.client errors) w w') :
    w'.node = w.node := by
  induction h with
  | refl => rfl
  | tail _ move ih =>
    rw [← ih]
    cases move with
    | work step => cases step <;> rfl
    | pass wake => rfl
    | number count => rfl
    | line l => rfl

/-- A batch on a tracker leaves the submissions in their places that the tracker had before. -/
theorem onward_of_holds {table : ErrorTable} {t t' : Tracker} {issued : List Submission}
    {count last : Nat} (h : Runner.Holds table t.submissions issued count last t'.submissions)
    (fresh : ∀ sub ∈ issued, sub.watch = {}) : t.Onward t' := by
  have sound : ∀ sub ∈ issued, sub.watch.Sound := fun sub mem =>
    Submission.sound_of_fresh (fresh sub mem)
  unfold Tracker.Onward
  rcases h with ⟨-, held⟩ | ⟨seen, unseen, rfl, -, held⟩
  · rw [held]
    exact .append (fun sub => .refl sub.watch) _ sound
  · rw [List.forall_mem_append] at sound
    let taken : Tracker := { t with submissions := t.submissions ++ seen }
    have first : t.Onward taken := .append (fun sub => .refl sub.watch) _ sound.1
    have second : (taken.settle table last).Onward t' := by
      unfold Tracker.Onward
      rw [held]
      exact .append (fun sub => .refl sub.watch) _ sound.2
    exact (first.trans (taken.onward_settle table last)).trans second

/-- What a batch on an open tracker makes of a session: time passes for all trackers but its own,
which may not have taken the reports due at the end. -/
theorem exists_run_eq {tracker : String} {number : Nat} {t : Tracker}
    (found : s.tracker? tracker = some (number, t)) (mode : Mode) (calls : List ScriptedCall)
    (options : Options) :
    let s' := (s.run tracker mode calls options).2
    let later := s'.world.now
    s'.client = s.client ∧ s'.waiters = s.waiters.map (·.advance s later) ∧
      ∃ t' issued, s'.trackers = (s.trackers.map (·.settle s.client.errors later)).set number t' ∧
        t.Onward t' ∧
        t'.submissions.map (·.settle s.client.errors later) =
          (t.submissions ++ issued).map (·.settle s.client.errors later) := by
  intro s' later
  let p := runBatch s.client s.world t mode options calls
  have ran : s' = (s.run tracker mode calls options).2 := rfl
  simp only [run, found] at ran
  have clock : later = p.1.now := congrArg (·.world.now) ran
  have node : p.1.node = s.world.node := node_of_course (course_runBatch ..)
  have client : Stage.client p.1.node.errors = s.client := congrArg (Stage.client ·.errors) node
  obtain ⟨issued, inv⟩ := Runner.exists_inv_runBatch s.client s.world t mode options calls
  -- the tracker of the batch is in its place again, the others are settled, and so are the waiters
  refine ⟨by rw [ran]; exact client, by rw [ran, clock], p.2.tracker, issued, ?_,
    onward_of_holds inv.holds inv.fresh, by rw [clock]; exact inv.holds.settle (Nat.le_refl _)⟩
  rw [clock, ran]
  show ((s.trackers.set number { t with submissions := [] }).map
    (·.settle (Stage.client p.1.node.errors).errors p.1.now)).set number p.2.tracker = _
  rw [client, List.map_set, List.set_set]

/-- A batch keeps the submissions that others wait for. -/
theorem onward_run (s : Session) (tracker : String) (mode : Mode) (calls : List ScriptedCall)
    (options : Options) :
    let s' := (s.run tracker mode calls options).2
    s.Onward (s'.advance s'.world.now) := by
  intro s'
  cases found : s.tracker? tracker with
  | none =>
    have same : s' = s := by
      simp only [s', run, found]
    rw [same]
    exact onward_advance s _
  | some entry =>
    obtain ⟨number, t⟩ := entry
    obtain ⟨client, waiters, t', issued, trackers, goes, submissions⟩ :=
      exists_run_eq found mode calls options
    have listed := getElem?_of_tracker? found
    have passed : Continues Tracker.Onward Tracker.Sound s.trackers s'.trackers := by
      rw [trackers]
      exact .map_set (fun t => t.onward_settle s.client.errors s'.world.now) listed goes
    -- the submissions from before the batch keep their places and are settled at its end
    have kept : ∀ p sub, s.at? p = some sub →
        (s'.advance s'.world.now).at? p = some (sub.settle s.client.errors s'.world.now) := by
      intro p sub held
      rw [at?_advance, client]
      obtain ⟨t₀, listed₀, held⟩ := Option.bind_eq_some_iff.mp held
      rw [at?, trackers]
      -- the tracker of the batch has its submissions from before in front
      by_cases here : number = p.tracker
      · subst here
        obtain rfl := Option.some.inj (listed.symm.trans listed₀)
        obtain ⟨bound, -⟩ := List.getElem?_eq_some_iff.mp listed
        obtain ⟨within, -⟩ := List.getElem?_eq_some_iff.mp held
        rw [List.getElem?_set_self (by rwa [List.length_map])]
        show t'.submissions[p.index]?.map _ = _
        rw [← List.getElem?_map, submissions, List.getElem?_map, List.getElem?_append_left within,
          held, Option.map_some]
      · rw [List.getElem?_set_ne here, List.getElem?_map, listed₀]
        show ((t₀.submissions.map _)[p.index]?).map _ = _
        rw [List.getElem?_map, held, Option.map_some, Option.map_some]
        exact congrArg some (Submission.settle_settle _ (Nat.le_refl _) sub)
    have advanced := onward_advance s' s'.world.now
    refine ⟨trackers_trans passed advanced.trackers, ?_⟩
    intro sound w mem
    have sound' : s'.Sound := Continues.forall_mem (fun step => step.sound) passed sound
    -- a waiter has come to its end during the batch, or at its end, or not at all
    rcases advanced.waiters sound' w mem with mem | right
    · rw [waiters] at mem
      exact right_advance sound kept mem
    · exact Or.inr right

/-! ### Whole runs -/

/-- **What one operation keeps.** -/
theorem onward_step (s : Session) (op : Operation) : s.Onward (s.step op).2 := by
  have turned : s.Onward s.turnPage := .of_eq rfl rfl
  refine turned.trans ?_
  -- whatever is performed, the reports due at its end are taken
  have ends : s.turnPage.Onward (s.turnPage.perform op).2 → s.turnPage.Onward (s.step op).2 :=
    fun performed => performed.trans (onward_advance _ _)
  cases op with
  | openTracker name account => exact ends (onward_openTracker s.turnPage name account)
  | submit tracker name script => exact ends (onward_submit s.turnPage tracker name script)
  | deliver name reports =>
    apply ends
    rw [perform]
    split
    · exact .of_eq rfl rfl
    -- what is delivered changes the feed of a submission, not what is known of it
    · refine Onward.trans (onward_modifyAt s.turnPage _ ?_) (onward_advance _ _)
      intro sub
      rfl
  | await name level timeout => exact ends (onward_await s.turnPage name level timeout)
  | spawnAwait waiter name level timeout =>
    exact ends (onward_spawnAwait s.turnPage waiter name level timeout)
  | join waiter => exact ends (onward_join s.turnPage waiter)
  | sleep ms => exact ends (onward_advance s.turnPage _)
  | resync name => exact ends (onward_resync s.turnPage name)
  | close name =>
    apply ends
    rw [perform]
    split
    · exact .of_eq rfl rfl
    · exact (onward_retire s.turnPage name _).trans (.of_eq rfl rfl)
  | drop name =>
    apply ends
    rw [perform]
    split
    · exact .of_eq rfl rfl
    · exact (onward_retire s.turnPage name _).trans (.of_eq rfl rfl)
  | run tracker mode calls options => exact onward_run s.turnPage tracker mode calls options
  | across batches mode options => exact ends (onward_across s.turnPage batches mode options)
  | status name | nextNonce name | lease name account | release name | created first second =>
    apply ends
    rw [perform]
    split <;> exact .of_eq rfl rfl
  -- neither trackers nor waiters change
  | poll | signer | setNonce | setUnavailable | createAbort | abort | dropAbort | isAborted
  | submitted =>
    exact ends (.of_eq rfl rfl)

/-- **What a run keeps.** -/
theorem onward_play (s : Session) (ops : List Operation) : s.Onward (s.play ops).2 := by
  induction ops generalizing s with
  | nil => exact .of_eq rfl rfl
  | cons op rest ih => exact (onward_step s op).trans (ih (s.step op).2)

/-- Every run from an empty session is coherent. -/
theorem coherent_play (world : World Stage ScriptedCall) (ops : List Operation) :
    (play { world } ops).2.Coherent := by
  have start : ({ world } : Session).Coherent :=
    { sound := by simp [Sound], right := by simp }
  exact start.onward (onward_play _ ops)

/-! ### Waits that have ended -/

/-- A wait at a level for the submission at a place has ended with `o` when an operation is done: in
the foreground that operation is the wait and answers `o`, and in the background a waiter has its
result then. -/
inductive Ended (s : Session) : Operation → Place → Level → Outcome → Prop
  | foreground {name : String} {p : Place} {sub : Submission} {level : Level} {timeout : Nat}
      {o : Outcome} (known : s.submission? name = some (p, sub))
      (answered : (s.step (.await name level timeout)).1.answer = .outcome o) :
      Ended s (.await name level timeout) p level o
  | background {op : Operation} {w : Waiter} {o : Outcome} {at_ : Nat}
      (waits : w ∈ (s.step op).2.waiters) (result : w.result = some (o, at_)) :
      Ended s op w.place w.level o

/-- A conclusive outcome is the one that the submission has come to. -/
theorem Ended.settled {op : Operation} {level : Level} (h : s.Ended op p level o)
    (coherent : s.Coherent) (conclusive : o.IsConclusive level) : (s.step op).2.Settled p o := by
  cases h with
  | background waits result =>
    exact (coherent.onward (onward_step s op)).right _ waits o _ result conclusive
  | foreground known answered =>
    rename_i name sub timeout
    obtain ⟨told, -, rest⟩ := step_await known level timeout
    rw [told] at answered
    cases answered
    have held := at?_of_submission? known
    have sound : sub.watch.Sound := coherent.sound.watch held
    have resolved := Submission.resolve_of_wait s.client.errors
      (rfl : sub.wait s.client.errors level s.world.now timeout = _) conclusive.ne_timedOut
    refine settled_of_resolve s.client.errors sound resolved conclusive (Nat.le_refl _) ?_
    have bounds := sub.wait_bounds s.client.errors level s.world.now timeout
    rw [show (s.step (.await name level timeout)).2.at? p = (s.step (.sleep _)).2.at? p from
      congrArg (·.at? p) rest]
    show ((s.turnPage.advance _).advance _).at? p = _
    rw [at?_advance, at?_advance, show s.turnPage.at? p = some sub from held, Option.map_some,
      Option.map_some]
    refine congrArg some ((Submission.settle_settle _ (Nat.le_refl _) sub).trans ?_)
    exact congrArg (sub.settle s.client.errors) (Nat.add_sub_of_le bounds.1)

/-- Every wait for a submission that has come to an outcome gives that outcome at once. -/
theorem Settled.gives (h : s.Settled p o) {name : String}
    (known : s.submission? name = some (p, sub)) (level : Level) (timeout : Nat) :
    s.Gives name level timeout o s.world.now := by
  obtain ⟨sub', held, sound, resolved⟩ := h
  obtain rfl := Option.some.inj ((at?_of_submission? known).symm.trans held)
  have terminal := Status.isTerminal_of_resolve (resolved .finalized)
  have told : (sub.watchAt s.client.errors s.world.now).verdict level = some o := by
    apply Watch.verdict_of_resolve
    rw [Submission.watchAt, Submission.status_settle_self _ sound terminal]
    exact resolved level
  have waited := Submission.wait_of_looks s.client.errors sub
    (.at_once (Nat.le_add_right s.world.now timeout) told)
  have given := Session.gives known level timeout
  rw [Submission.wait, waited] at given
  exact given

/-- **Conclusive outcomes are for good.** In every run: once a wait for a call has ended, in the
foreground or in the background, at the finalized level with anything but a timeout or at any level
with a failure, an invalid or a dropped call, every later wait for that call gives the same outcome
at once, under every name of the submission, at every level and with every timeout, zero included,
whatever operations come in between. -/
theorem conclusive_for_good (world : World Stage ScriptedCall) (before between : List Operation)
    (op : Operation) {level : Level} :
    let s₀ := (play { world } before).2
    let s₁ := (s₀.step op).2
    let s₂ := (s₁.play between).2
    s₀.Ended op p level o → o.IsConclusive level →
      ∀ name sub, s₂.submission? name = some (p, sub) →
        ∀ level' timeout', s₂.Gives name level' timeout' o s₂.world.now := by
  intro s₀ s₁ s₂ ended conclusive name sub known level' timeout'
  have settled : s₁.Settled p o := ended.settled (coherent_play world before) conclusive
  exact ((onward_play s₁ between).settled settled).gives known level' timeout'

/-- A call that is reverted in its final block: somebody who waited for its inclusion only is told
about it, and so is everybody after the tracker is closed, who does not want to wait at all. -/
theorem conclusive_for_good_reverted :
    let block := BlockHash.ofNat 1
    let overlord : AccountId := .ofNat 1
    let reverted : Outcome := .failed (.dispatch "BadOrigin")
    let events := [ChainEvent.extrinsicFailed (.other "BadOrigin")]
    let before : List Operation :=
      [.openTracker "tracker" overlord,
        .submit "tracker" "call" [(5, .report (.event (.finalized block events)))]]
    let between : List Operation :=
      [.close "tracker", .deliver "call" [.event .retracted], .sleep 30]
    let s₀ := (play { world := { node := {} } } before).2
    let s₁ := (s₀.step (.await "call" .inBlock 10)).2
    let s₂ := (s₁.play between).2
    (s₀.step (.await "call" .inBlock 10)).1.answer = .outcome reverted ∧
      (s₂.step (.await "call" .finalized 0)).1.answer = .outcome reverted := by
  intro block overlord reverted events before between s₀ s₁ s₂
  have answered : (s₀.step (.await "call" .inBlock 10)).1.answer = .outcome reverted := by
    rfl
  have known : (s₀.submission? "call").map (·.1) = some ⟨0, 0⟩ := by decide +kernel
  have known' : (s₂.submission? "call").map (·.1) = some ⟨0, 0⟩ := by decide +kernel
  -- the submissions are known by their places
  obtain ⟨⟨p, sub⟩, known, rfl⟩ := Option.map_eq_some_iff.mp known
  obtain ⟨⟨p', sub'⟩, known', rfl⟩ := Option.map_eq_some_iff.mp known'
  have ended : s₀.Ended (.await "call" .inBlock 10) ⟨0, 0⟩ .inBlock reverted :=
    .foreground known answered
  have given : s₂.Gives "call" .finalized 0 reverted s₂.world.now :=
    conclusive_for_good { node := {} } before between (.await "call" .inBlock 10) ended
      (Or.inr (Or.inl ⟨_, rfl⟩)) "call" sub' known' .finalized 0
  exact ⟨answered, given.foreground.1⟩

end Session

end ShellSale
