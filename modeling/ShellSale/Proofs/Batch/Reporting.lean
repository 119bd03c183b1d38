import ShellSale.Proofs.Batch.Collecting
import ShellSale.Proofs.Pipeline.Heeding

/-!
## What a batch reports

A batch hands over its first calls, waits for each of them under the timeout of its options, and
reports the outcomes of these waits up to the one that it stops on. It leaves calls out only if its
signal is raised or it has stopped.

* `World.Handed` ties a call that was handed over to the submission by which it is watched.
* `Runner.Progress` is the invariant of a batch under way: it holds from the start on
  (`exists_progress_start`), after every wait (`Progress.collect`) and at the end
  (`exists_progress_run`).
* `Runner.run_keeps`: what every wait keeps holds when a run has ended.
* `Batch.Report` is what a batch has done when it has ended, by what it reports.
-/

namespace ShellSale

variable {σ κ : Type} {client : Client σ κ}

/-! ### Calls and their submissions -/

namespace World

variable {a : AccountId} {w w' v v' : World σ κ}

/-- A call of an account that was handed over under a nonce between two worlds, and what it is
watched by: it is fed with what the node gave on taking the call. -/
structure Handed (client : Client σ κ) (w w' : World σ κ) (a : AccountId) (nonce : Nat) (call : κ)
    (s : Submission) : Prop where
  fresh : s.watch = {}
  numbered : s.nonce = nonce
  fed : ∃ u, Course client w u ∧ Course client (u.handOver client a nonce call) w' ∧
    s.feed = (client.handOver u.node u.now a nonce call).1.feed

theorem Handed.mono {nonce : Nat} {call : κ} {s : Submission}
    (h : Handed client w w' a nonce call s) (before : Course client v w)
    (after : Course client w' v') : Handed client v v' a nonce call s := by
  obtain ⟨u, came, went, feed⟩ := h.fed
  exact { h with fed := ⟨u, before.trans came, went.trans after, feed⟩ }

end World

theorem Sent.length_series (a : AccountId) (n : Nat) (calls : List κ) :
    (series a n calls).length = calls.length := by
  have made := congrArg List.length (map_call_series a n calls)
  rwa [List.length_map] at made

/-! ### Waits and outcomes -/

theorem Submission.waits_append (table : ErrorTable) (level : Level) (timeout now : Nat)
    (subs more : List Submission) :
    waits table level timeout now (subs ++ more) =
      waits table level timeout now subs ++
        waits table level timeout (waitsEnd table level timeout now subs) more := by
  induction subs generalizing now with
  | nil => rfl
  | cons s rest ih => rw [List.cons_append, waits, ih, waits, waitsEnd, List.cons_append]

theorem Submission.waitsEnd_append (table : ErrorTable) (level : Level) (timeout now : Nat)
    (subs more : List Submission) :
    waitsEnd table level timeout now (subs ++ more) =
      waitsEnd table level timeout (waitsEnd table level timeout now subs) more := by
  induction subs generalizing now with
  | nil => rfl
  | cons s rest ih => rw [List.cons_append, waitsEnd, ih, waitsEnd]

theorem Submission.length_waits (table : ErrorTable) (level : Level) (timeout now : Nat)
    (subs : List Submission) : (waits table level timeout now subs).length = subs.length := by
  induction subs generalizing now with
  | nil => rfl
  | cons s rest ih => rw [waits, List.length_cons, List.length_cons, ih]

/-- Each wait begins when the ones before have ended. -/
theorem Submission.getElem?_waits (table : ErrorTable) (level : Level) (timeout now : Nat)
    (subs : List Submission) (i : Nat) :
    (waits table level timeout now subs)[i]? = subs[i]?.map fun s =>
      s.wait table level (waitsEnd table level timeout now (subs.take i)) timeout := by
  induction subs generalizing now i with
  | nil => rfl
  | cons s rest ih =>
    cases i with
    | zero => rfl
    | succ i => exact ih _ i

section

variable {o : Options} {outcomes : List Outcome}

/-- Outcomes that a batch does not stop on are all reported. -/
theorem Policy.reported_append (calm : ∀ x ∈ outcomes, o.stopsOn x = false) (rest : List Outcome) :
    o.policy.reported (outcomes ++ rest) = outcomes ++ o.policy.reported rest := by
  induction outcomes with
  | nil => rfl
  | cons x more ih =>
    rw [List.forall_mem_cons] at calm
    rw [List.cons_append, reported_cons, calm.1, if_neg Bool.false_ne_true, ih calm.2,
      List.cons_append]

/-- A batch that never stops reports all outcomes. -/
theorem Policy.reported_of_calm (calm : ∀ x ∈ outcomes, o.stopsOn x = false) :
    o.policy.reported outcomes = outcomes := by
  have whole := reported_append calm []
  have none : o.policy.reported [] = [] := by cases o.policy <;> rfl
  rwa [none, List.append_nil] at whole

/-- A batch reports nothing behind an outcome that it stops on. -/
theorem Policy.reported_of_stop (calm : ∀ x ∈ outcomes, o.stopsOn x = false) {x : Outcome}
    (stops : o.stopsOn x = true) (rest : List Outcome) :
    o.policy.reported (outcomes ++ [x] ++ rest) = outcomes ++ [x] := by
  rw [List.append_assoc, reported_append calm, List.singleton_append, reported_cons, if_pos stops]

/-- A batch that reports nothing that it stops on reports all outcomes. -/
theorem Policy.reported_eq_self (calm : ∀ x ∈ o.policy.reported outcomes, o.stopsOn x = false) :
    o.policy.reported outcomes = outcomes := by
  induction outcomes with
  | nil => cases o.policy <;> rfl
  | cons x rest ih =>
    rw [reported_cons, List.forall_mem_cons] at calm
    obtain ⟨goesOn, calm⟩ := calm
    rw [goesOn, if_neg Bool.false_ne_true] at calm
    rw [reported_cons, goesOn, if_neg Bool.false_ne_true, ih calm]

end

namespace Runner

variable {o : Order κ} {issued : List Submission} {last : Nat} {w₀ w w' : World σ κ} {r : Runner κ}

/-- The outcomes of a batch are those of waits for all that it has handed over, as far as it has
come. -/
theorem Inv.exists_waits_eq {table : ErrorTable} (h : Inv table o issued last w r) :
    ∃ rest, (o.waits table issued).map (·.1) = r.outcomes ++ rest ∧
      (issued.length ≤ r.outcomes.length → rest = []) := by
  have outcomes := h.outcomes
  refine ⟨(Submission.waits table (o.options.levelOf o.mode) o.options.timeout
    (o.waitsEnd table (issued.take r.outcomes.length)) (issued.drop r.outcomes.length)).map (·.1),
    ?_, ?_⟩
  · conv_lhs => rw [Order.waits, ← List.take_append_drop r.outcomes.length issued]
    rw [Submission.waits_append, List.map_append]
    exact congrArg (· ++ _) outcomes.symm
  · intro all
    rw [List.drop_eq_nil_of_le all]
    rfl

/-! ### Handing over -/

/-- Each call that is handed over is watched by what the node gave on taking it. -/
theorem exists_handed_issue (client : Client σ κ) (w : World σ κ) (r : Runner κ) (calls : List κ) :
    ∃ new, (issue client w r calls).2.tracker.submissions = r.tracker.submissions ++ new ∧
      ∀ (j : Nat) s, new[j]? = some s → ∃ call, calls[j]? = some call ∧
        w.Handed client (issue client w r calls).1 r.tracker.account (r.tracker.cursor.next + j)
          call s := by
  induction calls generalizing w r with
  | nil => exact ⟨[], (List.append_nil _).symm, by simp⟩
  | cons call rest ih =>
    unfold issue
    split
    · exact ⟨[], (List.append_nil _).symm, by simp⟩
    · split
      · exact ⟨[], (List.append_nil _).symm, by simp⟩
      · by_cases below : r.tracker.cursor.next < NonceCursor.last
        · rw [Tracker.submit?_of_lt below]
          let t : Tracker := { r.tracker with
            cursor := ⟨r.tracker.cursor.next + 1⟩
            submissions := r.tracker.submissions ++ [r.tracker.next client w call] }
          let r' : Runner κ :=
            { r with tracker := t, inFlight := r.inFlight ++ [r.tracker.next client w call] }
          let w₁ := w.handOver client r.tracker.account r.tracker.cursor.next call
          -- the call is handed over here, and the others behind it
          obtain ⟨new, submissions, handed⟩ := ih w₁ r'
          have went : World.Course client w₁ (issue client w₁ r' rest).1 :=
            (steps_issue client w₁ r' rest).course
          refine ⟨r.tracker.next client w call :: new, ?_, ?_⟩
          · rw [submissions, List.append_assoc]
            rfl
          · intro j s found
            cases j with
            | zero =>
              obtain rfl := Option.some.inj found
              exact ⟨call, rfl, rfl, rfl, w, .refl, went, rfl⟩
            | succ j =>
              obtain ⟨call', listed, given⟩ := handed j s found
              have index : r'.tracker.cursor.next + j = r.tracker.cursor.next + (j + 1) := by
                show r.tracker.cursor.next + 1 + j = _
                omega
              rw [index] at given
              exact ⟨call', listed, given.mono (.single (.work (.handOver _ call))) .refl⟩
        · rw [Tracker.submit?_eq_none_iff.mpr (Nat.le_of_not_lt below)]
          exact ⟨[], (List.append_nil _).symm, by simp⟩

/-- How handing over ends. No call is left out unless the signal is raised; calls are put off only
while another one is in flight; and only exhausted nonces end a batch without its outcomes. -/
theorem issue_ends (client : Client σ κ) (w : World σ κ) (r : Runner κ) (calls : List κ) :
    let p := issue client w r calls
    (p.1.aborted r.options = true ∨ p.2.tracker.submissions.length + p.2.todo.length =
        r.tracker.submissions.length + calls.length) ∧
      (p.2.stage = .finished ∧ (p.2.inFlight = [] → p.2.todo = []) ∨
        p.2.stage = .overflowed ∧ NonceCursor.last ≤ p.2.tracker.cursor.next) := by
  induction calls generalizing w r with
  | nil => exact ⟨Or.inr rfl, Or.inl ⟨rfl, fun _ => rfl⟩⟩
  | cons call rest ih =>
    unfold issue
    -- a call is left to do by a runner that is busy, by a raised signal, or for want of a nonce
    split
    · rename_i busy
      exact ⟨Or.inr rfl, Or.inl ⟨rfl, fun idle => absurd idle busy.2⟩⟩
    · split
      · rename_i raised
        exact ⟨Or.inl raised, Or.inl ⟨rfl, fun _ => rfl⟩⟩
      · by_cases below : r.tracker.cursor.next < NonceCursor.last
        · rw [Tracker.submit?_of_lt below]
          obtain ⟨whole, ends⟩ := ih (w.handOver client r.tracker.account _ call)
            { r with
              tracker := { r.tracker with
                cursor := ⟨r.tracker.cursor.next + 1⟩
                submissions := r.tracker.submissions ++ [r.tracker.next client w call] }
              inFlight := r.inFlight ++ [r.tracker.next client w call] }
          refine ⟨whole.imp_right ?_, ends⟩
          intro count
          simp only [List.length_append, List.length_cons, List.length_nil] at count ⊢
          omega
        · have full := Nat.le_of_not_lt below
          rw [Tracker.submit?_eq_none_iff.mpr full]
          exact ⟨Or.inr rfl, Or.inr ⟨rfl, full⟩⟩

/-! ### Batches under way -/

/-- Each of some submissions stands for the call of the batch in its place, which was handed over
between two worlds. -/
def Order.Took (client : Client σ κ) (o : Order κ) (w w' : World σ κ) (subs : List Submission) :
    Prop :=
  ∀ (j : Nat) s, subs[j]? = some s → ∃ call, o.calls[j]? = some call ∧
    w.Handed client w' o.tracker.account (o.tracker.cursor.next + j) call s

theorem Order.Took.mono {w'' : World σ κ} {subs : List Submission} (h : o.Took client w w' subs)
    (course : World.Course client w' w'') : o.Took client w w'' subs := by
  intro j s found
  obtain ⟨call, listed, taken⟩ := h j s found
  exact ⟨call, listed, taken.mono .refl course⟩

/-- A batch that has not stopped, at a point where it may go on. -/
structure Going (client : Client σ κ) (o : Order κ) (w₀ : World σ κ) (issued : List Submission)
    (w : World σ κ) (r : Runner κ) : Prop where
  inv : Inv client.errors o issued w.now w r
  course : World.Course client w₀ w
  took : o.Took client w₀ w issued
  whole : w.aborted o.options = true ∨ issued.length + r.todo.length = o.calls.length
  calm : ∀ x ∈ r.outcomes, o.options.stopsOn x = false
  flying : r.inFlight = issued.drop r.outcomes.length

/-- **A batch under way** since the world `w₀`, by what it will report. Each call that it has handed
over is watched by what the node gave for it, and those that it will not hand over were left out on
an outcome or on the signal. When it ends, its outcomes are those of waits for all that it has
handed over, up to the one that it stops on, unless its nonces ran out. -/
structure Progress (client : Client σ κ) (o : Order κ) (w₀ : World σ κ) (issued : List Submission)
    (last : Nat) (w : World σ κ) (r : Runner κ) : Prop where
  paused : Paused client.errors o issued last w r
  course : World.Course client w₀ w
  took : o.Took client w₀ w issued
  whole : (∃ x ∈ r.outcomes, o.options.stopsOn x = true) ∨ w.aborted o.options = true ∨
    issued.length + r.todo.length = o.calls.length
  calm : ∀ nonce outcome wake, r.stage = .waiting nonce outcome wake →
    ∀ x ∈ r.outcomes, o.options.stopsOn x = false
  reported : r.stage = .finished → r.todo = [] ∧
    r.outcomes = o.options.policy.reported ((o.waits client.errors issued).map (·.1))
  full : r.stage = .overflowed → NonceCursor.last ≤ r.tracker.cursor.next

/-- Handing over calls. -/
theorem Going.issue (h : Going client o w₀ issued w r) :
    ∃ new, Issued w r r.todo (Runner.issue client w r r.todo).1
        (Runner.issue client w r r.todo).2 new ∧
      Going client o w₀ (issued ++ new) (Runner.issue client w r r.todo).1
        (Runner.issue client w r r.todo).2 := by
  obtain ⟨new, more⟩ := exists_issued client w r r.todo
  obtain ⟨new', submissions, given⟩ := exists_handed_issue client w r r.todo
  obtain rfl : new = new' := List.append_cancel_left (more.submissions.symm.trans submissions)
  obtain ⟨left, -⟩ := issue_ends client w r r.todo
  have went := (steps_issue client w r r.todo).course
  have inv := h.inv
  have later := inv.issue more
  rw [← more.now] at later
  rw [more.submissions, List.length_append, inv.options] at left
  rw [inv.account, inv.cursor] at given
  refine ⟨new, more, ?_⟩
  exact {
    inv := later
    course := h.course.trans went
    took := by
      -- the calls handed over before stand as they stood, the others come from the calls to do
      intro j s found
      rcases Nat.lt_or_ge j issued.length with lt | ge
      · rw [List.getElem?_append_left lt] at found
        exact (h.took.mono went) j s found
      · rw [List.getElem?_append_right ge] at found
        obtain ⟨call, listed, taken⟩ := given _ s found
        rw [Nat.add_assoc, Nat.add_sub_cancel' ge] at taken
        refine ⟨call, ?_, taken.mono h.course .refl⟩
        rcases inv.todo with todo | todo
        · rw [todo, List.getElem?_drop, Nat.add_sub_cancel' ge] at listed
          exact listed
        · rw [todo] at listed
          cases listed
    whole := by
      rw [List.length_append]
      rcases h.whole with raised | count
      · exact Or.inl (World.aborted_of_course went raised)
      · refine left.imp_right ?_
        intro count'
        omega
    calm := by
      rw [more.outcomes]
      exact h.calm
    flying := by
      rw [more.inFlight, h.flying, more.outcomes, List.drop_append_of_le_length inv.outcomes_le] }

/-- Going on to the next wait, once there is nothing to hand over before it. -/
theorem Going.awaitNext (h : Going client o w₀ issued w r)
    (ends : r.stage = .finished ∧ (r.inFlight = [] → r.todo = []) ∨
      r.stage = .overflowed ∧ NonceCursor.last ≤ r.tracker.cursor.next) :
    Progress client o w₀ issued w.now w (r.awaitNext client w) := by
  have idle : ∀ nonce outcome wake, r.stage ≠ .waiting nonce outcome wake := by
    intro nonce outcome wake stage
    rcases ends with ⟨finished, -⟩ | ⟨overflowed, -⟩
    · rw [finished] at stage
      cases stage
    · rw [overflowed] at stage
      cases stage
  have paused := h.inv.awaitNext h.flying idle
  rcases ends with ⟨finished, done⟩ | ⟨overflowed, full⟩
  · cases flight : r.inFlight with
    | nil =>
      -- all that was handed over has been waited for
      obtain ⟨rest, waits_eq, all⟩ := h.inv.exists_waits_eq
      have flying := h.flying
      rw [flight] at flying
      rw [all (List.drop_eq_nil_iff.mp flying.symm), List.append_nil] at waits_eq
      rw [awaitNext_of_nil flight] at paused ⊢
      exact {
        paused, course := h.course, took := h.took, whole := Or.inr h.whole
        calm := fun _ _ _ _ => h.calm
        reported := fun _ => ⟨done flight, by rw [waits_eq, Policy.reported_of_calm h.calm]⟩
        full := fun overflowed => by rw [finished] at overflowed; cases overflowed }
    | cons s others =>
      rw [awaitNext_of_cons finished flight] at paused ⊢
      exact {
        paused, course := h.course, took := h.took, whole := Or.inr h.whole
        calm := fun _ _ _ _ => h.calm
        reported := fun finished => by cases finished
        full := fun overflowed => by cases overflowed }
  -- without a nonce for the next call, the runner waits no more
  · have unfinished : r.stage ≠ .finished := by rw [overflowed]; simp
    rw [awaitNext_of_ne unfinished] at paused ⊢
    exact {
      paused, course := h.course, took := h.took, whole := Or.inr h.whole
      calm := fun _ _ _ _ => h.calm
      reported := fun finished => absurd finished unfinished
      full := fun _ => full }

theorem Going.proceed (h : Going client o w₀ issued w r) :
    ∃ issued', Progress client o w₀ issued' (r.proceed client w).1.now (r.proceed client w).1
      (r.proceed client w).2 := by
  obtain ⟨new, -, going⟩ := h.issue
  exact ⟨issued ++ new, going.awaitNext (issue_ends client w r r.todo).2⟩

/-- A batch may go on after an outcome that it does not stop on. -/
theorem Progress.going {nonce wake : Nat} {outcome : Outcome}
    (h : Progress client o w₀ issued last w r) (stage : r.stage = .waiting nonce outcome wake)
    (now : w.now = wake) (goesOn : o.options.stopsOn outcome = false) :
    Going client o w₀ issued (r.heard client w nonce outcome) (r.withOutcome client w outcome) := by
  obtain ⟨inv, flying⟩ := h.paused.withOutcome stage now
  have calm := h.calm nonce outcome wake stage
  have went : World.Course client w (r.heard client w nonce outcome) :=
    (steps_heard client w r nonce outcome r.tracker.account).course
  rw [← now, ← now_heard client w r nonce outcome] at inv
  exact {
    inv, flying
    course := h.course.trans went
    took := h.took.mono went
    whole := by
      rcases h.whole with ⟨x, mem, stops⟩ | raised | count
      · rw [calm x mem] at stops
        cases stops
      · exact Or.inl (World.aborted_of_course went raised)
      · exact Or.inr count
    calm := by
      intro x mem
      rcases List.mem_append.mp mem with mem | mem
      · exact calm x mem
      · rw [List.mem_singleton.mp mem]
        exact goesOn }

/-- A batch that stops on an outcome has ended. -/
theorem Progress.stop {nonce wake : Nat} {outcome : Outcome}
    (h : Progress client o w₀ issued last w r) (stage : r.stage = .waiting nonce outcome wake)
    (now : w.now = wake) (stops : o.options.stopsOn outcome = true) :
    Progress client o w₀ issued (r.collect client w nonce outcome).1.now
      (r.collect client w nonce outcome).1 (r.collect client w nonce outcome).2 := by
  obtain ⟨inv, -⟩ := h.paused.withOutcome stage now
  rw [← now, ← now_heard client w r nonce outcome] at inv
  -- the waits collected so far are the first of all, and the batch stops on the last
  obtain ⟨rest, waits_eq, -⟩ := inv.exists_waits_eq
  have went : World.Course client w (r.heard client w nonce outcome) :=
    (steps_heard client w r nonce outcome r.tracker.account).course
  have noticed : World.Course client (r.heard client w nonce outcome) _ :=
    (World.Steps.notify (a := r.tracker.account) _
      (stopNotice r.mode r.tracker.account nonce)).course
  rw [collect_eq, h.paused.inv.options, if_pos stops]
  exact {
    paused := {
      inv := { inv with
        todo := Or.inr rfl
        sentBy := by rw [World.sentBy_of_sent (World.sent_notify ..), inv.sentBy] }
      waiting := fun _ _ _ waits => by cases waits }
    course := (h.course.trans went).trans noticed
    took := (h.took.mono went).mono noticed
    whole := Or.inl ⟨outcome, List.mem_append_right _ (List.mem_singleton_self _), stops⟩
    calm := fun _ _ _ waits => by cases waits
    reported := fun _ => by
      refine ⟨rfl, ?_⟩
      rw [waits_eq]
      exact (Policy.reported_of_stop (h.calm nonce outcome wake stage) stops rest).symm
    full := fun overflowed => by cases overflowed }

/-- **A batch stays on its way** when a wait ends. -/
theorem Progress.collect {nonce wake : Nat} {outcome : Outcome}
    (h : Progress client o w₀ issued last w r) (stage : r.stage = .waiting nonce outcome wake)
    (now : w.now = wake) :
    ∃ issued', Progress client o w₀ issued' (r.collect client w nonce outcome).1.now
      (r.collect client w nonce outcome).1 (r.collect client w nonce outcome).2 := by
  cases stops : o.options.stopsOn outcome with
  | true => exact ⟨issued, h.stop stage now stops⟩
  | false =>
    have goesOn : ¬(r.options.stopsOn outcome = true) := by
      rw [h.paused.inv.options, stops]
      exact Bool.false_ne_true
    rw [collect_eq, if_neg goesOn]
    exact (h.going stage now stops).proceed

/-- What goes past the account of a batch leaves it on its way. -/
theorem Progress.mono (h : Progress client o w₀ issued last w r)
    (course : World.Course client w w')
    (sentBy : w'.sentBy o.tracker.account = w.sentBy o.tracker.account) :
    Progress client o w₀ issued last w' r :=
  have inv := h.paused.inv
  { h with
    paused := { h.paused with inv := { inv with sentBy := sentBy.trans inv.sentBy } }
    course := h.course.trans course
    took := h.took.mono course
    whole := h.whole.imp_right (Or.imp_left (World.aborted_of_course course)) }

/-- The clock never passes the end of a wait before that is taken in. -/
theorem Progress.later {nonce wake : Nat} {outcome : Outcome}
    (h : Progress client o w₀ issued w.now w r) (stage : r.stage = .waiting nonce outcome wake) :
    Progress client o w₀ issued w.now { w with now := max w.now wake } r ∧
      max w.now wake = wake := by
  obtain ⟨s, -, -, waited⟩ := h.paused.waiting nonce outcome wake stage
  have bounds := s.wait_bounds client.errors (o.options.levelOf o.mode) w.now o.options.timeout
  rw [waited] at bounds
  exact ⟨h.mono (.single (.pass wake)) rfl, max_eq_right bounds.1⟩

/-- A batch at its start may go on. -/
theorem going_start (client : Client σ κ) (w : World σ κ) (t : Tracker) (mode : Mode)
    (options : Options) (calls : List κ) (course : World.Course client w₀ w) :
    Going client ⟨mode, options, calls, t, w.now, w.sentBy t.account⟩ w₀ [] w
      { tracker := t, mode, options, total := calls.length, todo := calls } where
  inv := inv_start client.errors w t mode options calls
  course := course
  took := fun j s found => by cases found
  whole := Or.inr (Nat.zero_add _)
  calm := by simp
  flying := rfl

/-- A batch is on its way from its start on. -/
theorem exists_progress_start (client : Client σ κ) (w : World σ κ) (t : Tracker) (mode : Mode)
    (options : Options) (calls : List κ) (course : World.Course client w₀ w) :
    let p := start client w t mode options calls
    ∃ issued, Progress client ⟨mode, options, calls, t, w.now, w.sentBy t.account⟩ w₀ issued p.1.now
      p.1 p.2 :=
  (going_start client w t mode options calls course).proceed

/-! ### Whole runs -/

/-- **What every wait keeps** holds when a run has ended. -/
theorem run_keeps {P : World σ κ → Runner κ → Prop}
    (step : ∀ w r nonce outcome wake, P w r → r.stage = .waiting nonce outcome wake →
      P (r.collect client { w with now := max w.now wake } nonce outcome).1
        (r.collect client { w with now := max w.now wake } nonce outcome).2)
    (h : P w r) : P (run client w r).1 (run client w r).2 := by
  induction w, r using run.induct client with
  | case1 w r nonce outcome wake stage p =>
    rename_i ih
    rw [run_of_waiting stage]
    exact ih (step w r nonce outcome wake h stage)
  | case2 w r ended =>
    rw [run_of_ended ended]
    exact h

/-- A run waits for nothing when it has ended. -/
theorem stage_run (client : Client σ κ) (w : World σ κ) (r : Runner κ) :
    (run client w r).2.stage = .finished ∨ (run client w r).2.stage = .overflowed := by
  induction w, r using run.induct client with
  | case1 w r nonce outcome wake stage p =>
    rename_i ih
    rw [run_of_waiting stage]
    exact ih
  | case2 w r ended =>
    rw [run_of_ended ended]
    cases stage : r.stage with
    | waiting nonce outcome wake => exact absurd stage (ended _ _ _)
    | finished => exact Or.inl rfl
    | overflowed => exact Or.inr rfl

theorem stage_runBatch (client : Client σ κ) (w : World σ κ) (t : Tracker) (mode : Mode)
    (options : Options) (calls : List κ) :
    (runBatch client w t mode options calls).2.stage = .finished ∨
      (runBatch client w t mode options calls).2.stage = .overflowed :=
  stage_run ..

/-- **A whole batch** is on its way until it has ended. -/
theorem exists_progress_run (h : ∃ issued, Progress client o w₀ issued w.now w r) :
    ∃ issued, Progress client o w₀ issued (run client w r).1.now (run client w r).1
      (run client w r).2 := by
  refine run_keeps (P := fun w r => ∃ issued, Progress client o w₀ issued w.now w r) ?_ h
  rintro w r nonce outcome wake ⟨issued, progress⟩ stage
  obtain ⟨later, now⟩ := progress.later stage
  exact later.collect stage now

end Runner

/-! ### Batches that have ended -/

/-- **What a batch has done** between two worlds, by what it reports. It has handed over its first
calls under consecutive nonces, and reports the outcomes of waits for all of them, one after the
other and each with the timeout of the options, up to the one that it stops on. It has left out
calls only because its signal is raised or it has stopped. -/
structure Batch.Report (client : Client σ κ) (mode : Mode) (options : Options) (b : Batch κ)
    (first : Nat) (w w' : World σ κ) (subs : List Submission) (outcomes : List Outcome) : Prop where
  length_le : subs.length ≤ b.calls.length
  handed : ∀ (j : Nat) s, subs[j]? = some s → ∃ call, b.calls[j]? = some call ∧
    w.Handed client w' b.account (first + j) call s
  sentBy : w'.sentBy b.account = w.sentBy b.account ++
    Sent.series b.account first (b.calls.take subs.length)
  outcomes_eq : outcomes = options.policy.reported
    ((Submission.waits client.errors (options.levelOf mode) options.timeout w.now subs).map (·.1))
  whole : subs.length < b.calls.length →
    w'.aborted options = true ∨ ∃ x ∈ outcomes, options.stopsOn x = true

namespace Batch.Report

variable {mode : Mode} {options : Options} {b : Batch κ} {first : Nat} {w w' w'' : World σ κ}
  {subs : List Submission} {outcomes : List Outcome}

theorem mono (h : Report client mode options b first w w' subs outcomes)
    (course : World.Course client w' w'') (sentBy : w''.sentBy b.account = w'.sentBy b.account) :
    Report client mode options b first w w'' subs outcomes :=
  { h with
    handed := by
      intro j s found
      obtain ⟨call, listed, taken⟩ := h.handed j s found
      exact ⟨call, listed, taken.mono .refl course⟩
    sentBy := sentBy.trans h.sentBy
    whole := fun short => (h.whole short).imp_left (World.aborted_of_course course) }

theorem since {w₀ : World σ κ} (h : Report client mode options b first w w' subs outcomes)
    (course : World.Course client w₀ w) (now : w.now = w₀.now)
    (sentBy : w.sentBy b.account = w₀.sentBy b.account) :
    Report client mode options b first w₀ w' subs outcomes :=
  { h with
    handed := by
      intro j s found
      obtain ⟨call, listed, taken⟩ := h.handed j s found
      exact ⟨call, listed, taken.mono course .refl⟩
    sentBy := sentBy ▸ h.sentBy
    outcomes_eq := now ▸ h.outcomes_eq }

/-- A batch that does not stop reports one outcome for each call that it has handed over. -/
theorem length_eq_of_calm (h : Report client mode options b first w w' subs outcomes)
    (calm : ∀ x ∈ outcomes, options.stopsOn x = false) : outcomes.length = subs.length := by
  have outcomes_eq := h.outcomes_eq
  rw [outcomes_eq] at calm
  rw [outcomes_eq, Policy.reported_eq_self calm, List.length_map, Submission.length_waits]

/-- Under the policy to collect all outcomes, there is one for each call handed over. -/
theorem length_eq (h : Report client mode options b first w w' subs outcomes)
    (policy : options.policy = .collectAll) : outcomes.length = subs.length := by
  refine h.length_eq_of_calm ?_
  intro x _
  simp [Options.stopsOn, policy]

/-- Under the policy to collect all outcomes, calls are left out only if the signal is raised. -/
theorem aborted (h : Report client mode options b first w w' subs outcomes)
    (policy : options.policy = .collectAll) (short : subs.length < b.calls.length) :
    w'.aborted options = true := by
  rcases h.whole short with raised | ⟨x, -, stops⟩
  · exact raised
  · simp [Options.stopsOn, policy] at stops

end Batch.Report

/-- The order of a batch that starts on a tracker in a world. -/
def Batch.order (mode : Mode) (options : Options) (b : Batch κ) (t : Tracker) (w : World σ κ) :
    Runner.Order κ :=
  ⟨mode, options, b.calls, t, w.now, w.sentBy b.account⟩

/-- A batch that has ended has done what it reports. -/
theorem Runner.Progress.report {mode : Mode} {options : Options} {b : Batch κ} {t : Tracker}
    {issued : List Submission} {last : Nat} {w w' : World σ κ} {r : Runner κ}
    (h : Progress client (b.order mode options t w) w issued last w' r)
    (account : t.account = b.account) (stage : r.stage = .finished) :
    b.Report client mode options t.cursor.next w w' issued r.outcomes := by
  have inv := h.paused.inv
  obtain ⟨todo, reported⟩ := h.reported stage
  have handed := h.took
  have sentBy := inv.sentBy
  simp only [Order.Took, Batch.order, Order.series, account] at handed sentBy
  exact {
    length_le := inv.issued_le
    handed, sentBy
    outcomes_eq := reported
    whole := by
      intro short
      rcases h.whole with stops | raised | count
      · exact Or.inr stops
      · exact Or.inl raised
      · rw [todo] at count
        exact absurd count short.ne }

/-- **What a batch on an open tracker reports**, since a world that came before at the same moment,
unless its nonces run out. -/
theorem exists_report_runBatch (client : Client σ κ) {w₀ w : World σ κ} {t : Tracker} (mode : Mode)
    (options : Options) (calls : List κ) (course : World.Course client w₀ w) (now : w.now = w₀.now)
    (sentBy : w.sentBy t.account = w₀.sentBy t.account) :
    let p := runBatch client w t mode options calls
    p.2.stage ≠ .overflowed → ∃ subs, Batch.Report client mode options ⟨t.account, calls⟩
      t.cursor.next w₀ p.1 subs p.2.outcomes := by
  intro p stage
  obtain ⟨subs, progress⟩ := Runner.exists_progress_run
    (Runner.exists_progress_start client w t mode options calls course)
  have ends := Runner.stage_run client (Runner.start client w t mode options calls).1
    (Runner.start client w t mode options calls).2
  rw [now, sentBy] at progress
  exact ⟨subs, Runner.Progress.report (b := ⟨t.account, calls⟩) progress rfl
    (ends.resolve_right stage)⟩

end ShellSale
