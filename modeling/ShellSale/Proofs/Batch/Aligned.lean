import ShellSale.Proofs.Batch.Reporting

/-!
## Submissions and outcomes of a pipelined batch

A pipelined batch has two loops. The first one hands over calls until the signal is raised, the
second one waits for them until it stops on an outcome. So the calls of the batch, those handed over
and the outcomes may be lists of three lengths, each a prefix of the one before by position.

* `World.handOverAll` is the world after calls were handed over one right after the other.
* `Runner.exists_burst`: how far the first loop gets, and what stops it.
* `Runner.collects_run`: the second loop hands over nothing.
* `Policy.reported_cases`: where the outcomes of the second loop end.
* `Batch.Aligned` is how the outcomes stand for the submissions.
* `Runner.runBatch_aligned` is the main result.
-/

namespace ShellSale

variable {σ κ : Type} {client : Client σ κ}

/-! ### Calls handed over at once -/

namespace World

/-- The world after calls of an account were handed over one right after the other, under
consecutive nonces. -/
def handOverAll (client : Client σ κ) (w : World σ κ) (a : AccountId) (nonce : Nat) :
    List κ → World σ κ
  | [] => w
  | call :: rest => (w.handOver client a nonce call).handOverAll client a (nonce + 1) rest

@[simp] theorem now_handOverAll (client : Client σ κ) (w : World σ κ) (a : AccountId) (nonce : Nat)
    (calls : List κ) : (w.handOverAll client a nonce calls).now = w.now := by
  induction calls generalizing w nonce with
  | nil => rfl
  | cons call rest ih => exact ih _ _

end World

/-- The submission of a call that a tracker hands over after `count` others, in a world that has
got these. -/
def Tracker.nth (client : Client σ κ) (w : World σ κ) (t : Tracker) (count : Nat) (call : κ) :
    Submission :=
  { t with cursor := ⟨t.cursor.next + count⟩ }.next client w call

namespace Runner

/-- **How far a batch gets that hands over its calls at once**: it hands over one for each of `new`
while the signal is not raised, and then there is no call left, or the signal is raised, or there is
no nonce for the next call. -/
structure Burst (client : Client σ κ) (w : World σ κ) (r : Runner κ) (calls : List κ)
    (w' : World σ κ) (r' : Runner κ) (new : List Submission) : Prop where
  inFlight : r'.inFlight = r.inFlight ++ new
  handed : ∀ (j : Nat) s, new[j]? = some s → ∃ call, calls[j]? = some call ∧
    let before := w.handOverAll client r.tracker.account r.tracker.cursor.next (calls.take j)
    before.aborted r.options = false ∧ s = r.tracker.nth client before j call
  steps : World.Steps client r.tracker.account
    (w.handOverAll client r.tracker.account r.tracker.cursor.next (calls.take new.length)) w'
  sent : w'.sent = w.sent ++
    Sent.series r.tracker.account r.tracker.cursor.next (calls.take new.length)
  ends :
    r'.stage = .finished ∧ r'.todo = [] ∧ (new.length < calls.length →
      (w.handOverAll client r.tracker.account r.tracker.cursor.next
        (calls.take new.length)).aborted r.options = true) ∨
    r'.stage = .overflowed ∧ new.length < calls.length ∧
      NonceCursor.last ≤ r.tracker.cursor.next + new.length

/-- One more call at the front. -/
theorem Burst.cons {w w' : World σ κ} {r r' : Runner κ} {call : κ} {rest : List κ}
    {new : List Submission} (calm : w.aborted r.options = false)
    (more : Burst client (w.handOver client r.tracker.account r.tracker.cursor.next call)
      { r with
        tracker := { r.tracker with
          cursor := ⟨r.tracker.cursor.next + 1⟩
          submissions := r.tracker.submissions ++ [r.tracker.next client w call] }
        inFlight := r.inFlight ++ [r.tracker.next client w call] } rest w' r' new) :
    Burst client w r (call :: rest) w' r' (r.tracker.next client w call :: new) where
  inFlight := by rw [more.inFlight, List.append_assoc]; rfl
  handed := by
    intro j s found
    -- the first call is handed over at once, and all others come behind it
    cases j with
    | zero =>
      obtain rfl := Option.some.inj found
      exact ⟨call, rfl, calm, rfl⟩
    | succ j =>
      obtain ⟨call', listed, quiet, rfl⟩ := more.handed j s found
      refine ⟨call', listed, quiet, ?_⟩
      have index : r.tracker.cursor.next + 1 + j = r.tracker.cursor.next + (j + 1) := by omega
      simp only [Tracker.nth, Tracker.next, index]
      rfl
  steps := more.steps
  sent := by
    rw [more.sent, World.sent_handOver, List.append_assoc]
    rfl
  ends := by
    refine more.ends.imp ?_ ?_
    · rintro ⟨finished, done, short⟩
      exact ⟨finished, done, fun lt => short (Nat.lt_of_succ_lt_succ lt)⟩
    · rintro ⟨overflowed, short, full⟩
      refine ⟨overflowed, Nat.succ_lt_succ short, ?_⟩
      dsimp only at full
      rw [List.length_cons]
      omega

/-- **The first loop** of a pipelined batch. -/
theorem exists_burst (client : Client σ κ) (w : World σ κ) (r : Runner κ) (calls : List κ)
    (mode : r.mode = .pipelined) :
    ∃ new, Burst client w r calls (issue client w r calls).1 (issue client w r calls).2 new := by
  induction calls generalizing w r with
  | nil =>
    refine ⟨[], (List.append_nil _).symm, by simp, .refl, (List.append_nil _).symm, ?_⟩
    exact Or.inl ⟨rfl, rfl, fun lt => absurd lt (Nat.lt_irrefl 0)⟩
  | cons call rest ih =>
    have free : ¬(r.mode = .sequential ∧ r.inFlight ≠ []) := by
      rw [mode]
      rintro ⟨sequential, -⟩
      cases sequential
    rw [issue, if_neg free]
    cases raised : w.aborted r.options with
    | true =>
      refine ⟨[], (List.append_nil _).symm, by simp, World.Steps.notify _ _, ?_,
        Or.inl ⟨rfl, rfl, fun _ => raised⟩⟩
      exact (World.sent_notify ..).trans (List.append_nil _).symm
    | false =>
      rw [if_neg Bool.false_ne_true]
      by_cases below : r.tracker.cursor.next < NonceCursor.last
      · rw [Tracker.submit?_of_lt below]
        obtain ⟨new, more⟩ := ih (w.handOver client r.tracker.account r.tracker.cursor.next call)
          { r with
            tracker := { r.tracker with
              cursor := ⟨r.tracker.cursor.next + 1⟩
              submissions := r.tracker.submissions ++ [r.tracker.next client w call] }
            inFlight := r.inFlight ++ [r.tracker.next client w call] } mode
        exact ⟨_, Burst.cons raised more⟩
      -- the nonces have run out
      · have full := Nat.le_of_not_lt below
        rw [Tracker.submit?_eq_none_iff.mpr full]
        exact ⟨[], (List.append_nil _).symm, by simp, .refl, (List.append_nil _).symm,
          Or.inr ⟨rfl, Nat.succ_pos _, full⟩⟩

/-! ### Collecting -/

/-- What a batch leaves alone that only collects outcomes since the world `w₀`: it has nothing to
hand over, and hands over nothing. -/
structure Collects (client : Client σ κ) (w₀ : World σ κ) (cursor : NonceCursor) (w : World σ κ)
    (r : Runner κ) : Prop where
  todo : r.todo = []
  cursor : r.tracker.cursor = cursor
  sent : w.sent = w₀.sent
  course : World.Course client w₀ w

/-- The end of a wait hands over nothing if there is nothing to hand over. -/
theorem Collects.collect {w₀ w : World σ κ} {cursor : NonceCursor} {r : Runner κ}
    (h : Collects client w₀ cursor w r) (nonce wake : Nat) (outcome : Outcome) :
    Collects client w₀ cursor
      (r.collect client { w with now := max w.now wake } nonce outcome).1
      (r.collect client { w with now := max w.now wake } nonce outcome).2 := by
  have passed : World.Course client w { w with now := max w.now wake } := .single (.pass wake)
  have sent : ({ w with now := max w.now wake } : World σ κ).sent = w₀.sent := h.sent
  generalize { w with now := max w.now wake } = v at passed sent
  have went := (steps_collect client v r nonce outcome).course
  have course := (h.course.trans passed).trans went
  rw [collect_eq] at course ⊢
  split at course
  · rename_i stops
    rw [if_pos stops]
    exact ⟨rfl, h.cursor, ((World.sent_notify ..).trans (sent_heard ..)).trans sent, course⟩
  · rename_i goesOn
    have done : (r.withOutcome client v outcome).todo = [] := h.todo
    rw [proceed_of_todo_nil client _ done rfl] at course
    rw [if_neg goesOn, proceed_of_todo_nil client _ done rfl]
    refine ⟨?_, ?_, (sent_heard ..).trans sent, course⟩
    · rw [todo_awaitNext]
      exact done
    · rw [tracker_awaitNext]
      exact h.cursor

/-- **The second loop** hands over nothing. -/
theorem collects_run {w₀ w : World σ κ} {cursor : NonceCursor} {r : Runner κ}
    (h : Collects client w₀ cursor w r) :
    Collects client w₀ cursor (run client w r).1 (run client w r).2 := by
  refine run_keeps (P := Collects client w₀ cursor) ?_ h
  intro w r nonce outcome wake collects _
  exact collects.collect nonce wake outcome

end Runner

/-- **Where the outcomes end**: all are reported if the batch stops on none of them, and else those
up to the first one that it stops on. -/
theorem Policy.reported_cases (o : Options) (outcomes : List Outcome) :
    o.policy.reported outcomes = outcomes ∧ (∀ x ∈ outcomes, o.stopsOn x = false) ∨
      ∃ front last rest, outcomes = front ++ [last] ++ rest ∧
        o.policy.reported outcomes = front ++ [last] ∧ (∀ x ∈ front, o.stopsOn x = false) ∧
        o.stopsOn last = true := by
  induction outcomes with
  | nil => exact Or.inl ⟨reported_of_calm (by simp), by simp⟩
  | cons x rest ih =>
    rw [reported_cons]
    cases stops : o.stopsOn x with
    | true => exact Or.inr ⟨[], x, rest, rfl, rfl, by simp, stops⟩
    | false =>
      rw [if_neg Bool.false_ne_true]
      rcases ih with ⟨all, calm⟩ | ⟨front, last, behind, split, reported, calm, ends⟩
      · exact Or.inl ⟨by rw [all], List.forall_mem_cons.mpr ⟨stops, calm⟩⟩
      · have fronted : ∀ y ∈ x :: front, o.stopsOn y = false :=
          List.forall_mem_cons.mpr ⟨stops, calm⟩
        refine Or.inr ⟨x :: front, last, behind, ?_, ?_, fronted, ends⟩
        · rw [split, List.cons_append, List.cons_append]
        · rw [reported, List.cons_append]

/-- What is reported are the first outcomes. -/
theorem Policy.getElem?_of_reported {o : Options} {outcomes : List Outcome} {i : Nat} {x : Outcome}
    (found : (o.policy.reported outcomes)[i]? = some x) : outcomes[i]? = some x := by
  rcases reported_cases o outcomes with ⟨all, -⟩ | ⟨front, last, rest, split, reported, -, -⟩
  · rwa [all] at found
  · rw [reported] at found
    have lt := (List.getElem?_eq_some_iff.mp found).1
    rw [split, List.getElem?_append_left lt, found]

/-- **Outcomes aligned with submissions**: they stand for the first of these in their order, each is
that of a wait that starts when the one before has ended, and they end as the policy says. -/
structure Batch.Aligned (table : ErrorTable) (o : Options) (level : Level) (now : Nat)
    (subs : List Submission) (outcomes : List Outcome) : Prop where
  waited : ∀ (i : Nat) x, outcomes[i]? = some x → ∃ s, subs[i]? = some s ∧
    x = (s.wait table level (Submission.waitsEnd table level o.timeout now (subs.take i))
      o.timeout).1
  all : o.policy = .collectAll → outcomes.length = subs.length
  cut : o.policy = .abortOnFirstFailure →
    outcomes.length = subs.length ∧ (∀ x ∈ outcomes, x.isAccepted = true) ∨
      ∃ front last, outcomes = front ++ [last] ∧ (∀ x ∈ front, x.isAccepted = true) ∧
        last.isAccepted = false

/-- What a batch reports of waits for its submissions, one after the other, is aligned with them. -/
theorem Batch.aligned_reported (table : ErrorTable) (o : Options) (level : Level) (now : Nat)
    (subs : List Submission) : Aligned table o level now subs
      (o.policy.reported ((Submission.waits table level o.timeout now subs).map (·.1))) where
  waited := by
    intro i x found
    have given := Policy.getElem?_of_reported found
    rw [List.getElem?_map, Submission.getElem?_waits, Option.map_map] at given
    obtain ⟨s, listed, rfl⟩ := Option.map_eq_some_iff.mp given
    exact ⟨s, listed, rfl⟩
  all := by
    intro policy
    rw [policy, Policy.reported, List.length_map, Submission.length_waits]
  cut := by
    intro policy
    have stopsOn (x : Outcome) : o.stopsOn x = !x.isAccepted := by simp [Options.stopsOn, policy]
    rcases Policy.reported_cases o ((Submission.waits table level o.timeout now subs).map (·.1))
      with ⟨all, calm⟩ | ⟨front, last, rest, -, reported, calm, ends⟩
    · left
      rw [all, List.length_map, Submission.length_waits]
      refine ⟨rfl, ?_⟩
      intro x mem
      simpa [stopsOn] using calm x mem
    · right
      refine ⟨front, last, reported, ?_, by simpa [stopsOn] using ends⟩
      intro x mem
      simpa [stopsOn] using calm x mem

/-! ### Whole batches -/

namespace Runner

/-- **Submissions and outcomes of a pipelined batch.** Before its first wait it hands over a prefix
of its calls, in order and under consecutive nonces, each while the signal is not raised; it leaves
out calls only if the signal is raised then. It hands over no other call, and its outcomes are
aligned with the submissions. Only a batch that has used up all nonces ends otherwise. -/
theorem runBatch_aligned (client : Client σ κ) (w : World σ κ) (t : Tracker) (options : Options)
    (calls : List κ) :
    let p := runBatch client w t .pipelined options calls
    let before := fun j => w.handOverAll client t.account t.cursor.next (calls.take j)
    ∃ subs : List Submission, subs.length ≤ calls.length ∧
      (∀ (j : Nat) s, subs[j]? = some s → ∃ call, calls[j]? = some call ∧
        (before j).aborted options = false ∧ s = t.nth client (before j) j call) ∧
      (before subs.length).now = w.now ∧ World.Course client (before subs.length) p.1 ∧
      p.1.sent = w.sent ++ Sent.series t.account t.cursor.next (calls.take subs.length) ∧
      p.2.tracker.cursor.next = t.cursor.next + subs.length ∧
      (p.2.stage = .finished ∧
          (subs.length < calls.length → (before subs.length).aborted options = true) ∧
          Batch.Aligned client.errors options options.level w.now subs p.2.outcomes ∨
        p.2.stage = .overflowed ∧ subs.length < calls.length ∧
          NonceCursor.last ≤ t.cursor.next + subs.length) := by
  let r₀ : Runner κ :=
    { tracker := t, mode := .pipelined, options, total := calls.length, todo := calls }
  obtain ⟨subs, issued⟩ := exists_issued client w r₀ calls
  obtain ⟨subs', burst⟩ := exists_burst client w r₀ calls rfl
  obtain rfl : subs = subs' := issued.inFlight.symm.trans burst.inFlight
  intro p before
  have started : p = run client (issue client w r₀ calls).1
      ((issue client w r₀ calls).2.awaitNext client (issue client w r₀ calls).1) := rfl
  generalize issue client w r₀ calls = q at issued burst started
  obtain ⟨w₁, r₁⟩ := q
  dsimp only at issued burst started
  refine ⟨subs, issued.length_le, burst.handed, World.now_handOverAll .., ?_⟩
  rcases burst.ends with ⟨finished, done, short⟩ | ⟨overflowed, short, full⟩
  · -- the second loop starts
    have collects : Collects client w₁ r₁.tracker.cursor w₁ (r₁.awaitNext client w₁) := {
      todo := by rw [todo_awaitNext, done]
      cursor := by rw [tracker_awaitNext]
      sent := rfl
      course := .refl }
    have collected := collects_run collects
    obtain ⟨ended, outcomes⟩ := outcomes_run_awaitNext client (w := w₁) done finished
    rw [← started] at collected ended outcomes
    have pending : r₁.pending client w₁.now =
        (Submission.waits client.errors options.level options.timeout w.now subs).map (·.1) := by
      rw [Runner.pending, issued.mode, issued.options, issued.now, issued.inFlight]
      rfl
    rw [issued.outcomes, issued.options, pending] at outcomes
    refine ⟨burst.steps.course.trans collected.course, collected.sent.trans burst.sent, ?_,
      Or.inl ⟨ended, short, ?_⟩⟩
    · rw [collected.cursor]
      exact issued.cursor
    · rw [outcomes]
      exact Batch.aligned_reported client.errors options options.level w.now subs
  -- the nonces ran out, so the second loop does not start
  · have idle : r₁.stage ≠ .finished := by
      rw [overflowed]
      simp
    rw [awaitNext_of_ne idle, run_of_ended issued.idle] at started
    rw [started]
    exact ⟨burst.steps.course, burst.sent, issued.cursor, Or.inr ⟨overflowed, short, full⟩⟩

end Runner

end ShellSale
