import Mathlib.Data.List.Basic
import ShellSale.Batch.Runner
import ShellSale.Proofs.Pipeline.Log
import ShellSale.Proofs.Submission.Waiting

/-!
## What a batch does on its tracker

A batch hands over calls and waits for them in turn, and between two waits no time passes. So at
every point of a batch the calls handed over are a prefix of its calls under consecutive nonces, and
the outcomes are those of waits for the first of them, one after the other.

* `Runner.Issued` is all that handing over calls between two waits changes.
* `Runner.Inv` is the invariant of a batch under way; it holds at the start (`inv_start`), after
  every wait (`Paused.collect`) and at the end (`exists_inv_runBatch`).
-/

namespace ShellSale

variable {σ κ : Type}

namespace Runner

/-! ### Handing over calls -/

/-- All that handing over calls between two waits changes: `new` are the calls it handed over. -/
structure Issued (w : World σ κ) (r : Runner κ) (calls : List κ) (w' : World σ κ) (r' : Runner κ)
    (new : List Submission) : Prop where
  mode : r'.mode = r.mode
  options : r'.options = r.options
  outcomes : r'.outcomes = r.outcomes
  account : r'.tracker.account = r.tracker.account
  cursor : r'.tracker.cursor.next = r.tracker.cursor.next + new.length
  submissions : r'.tracker.submissions = r.tracker.submissions ++ new
  inFlight : r'.inFlight = r.inFlight ++ new
  length_le : new.length ≤ calls.length
  room : r.tracker.cursor.next + new.length ≤ max r.tracker.cursor.next NonceCursor.last
  todo : r'.todo = calls.drop new.length ∨ r'.todo = []
  fresh : ∀ s ∈ new, s.watch = {}
  nonces : new.map (·.nonce) = List.range' r.tracker.cursor.next new.length
  idle : ∀ nonce outcome wake, r'.stage ≠ .waiting nonce outcome wake
  now : w'.now = w.now
  registry : w'.registry = w.registry
  grows : World.GrowsTo (Entry.IsBy r.tracker.account) w w'
  sentBy : w'.sentBy r.tracker.account = w.sentBy r.tracker.account ++
    Sent.series r.tracker.account r.tracker.cursor.next (calls.take new.length)

/-- A runner that hands over nothing. -/
theorem Issued.none {w w' : World σ κ} {r : Runner κ} {calls todo : List κ} {stage : Stage}
    (todo_eq : todo = calls ∨ todo = [])
    (idle : ∀ nonce outcome wake, stage ≠ .waiting nonce outcome wake)
    (now : w'.now = w.now) (registry : w'.registry = w.registry)
    (grows : World.GrowsTo (Entry.IsBy r.tracker.account) w w') (sent : w'.sent = w.sent) :
    Issued w r calls w' { r with todo, stage } [] where
  mode := rfl
  options := rfl
  outcomes := rfl
  account := rfl
  cursor := rfl
  submissions := (List.append_nil _).symm
  inFlight := (List.append_nil _).symm
  length_le := Nat.zero_le _
  room := Nat.le_max_left ..
  todo := todo_eq
  fresh := by simp
  nonces := rfl
  idle := idle
  now := now
  registry := registry
  grows := grows
  sentBy := by
    rw [World.sentBy_of_sent sent, List.length_nil, List.take_zero, Sent.series, List.append_nil]

/-- A runner that hands over a call and then more. -/
theorem Issued.cons {client : Client σ κ} {w w₁ w' : World σ κ} {r r' : Runner κ} {t : Tracker}
    {call : κ} {rest : List κ} {s : Submission} {new : List Submission}
    (first : Tracker.Submitted client w r.tracker call w₁ t s)
    (more : Issued w₁ { r with tracker := t, inFlight := r.inFlight ++ [s] } rest w' r' new) :
    Issued w r (call :: rest) w' r' (s :: new) where
  mode := more.mode
  options := more.options
  outcomes := more.outcomes
  account := more.account.trans first.account
  cursor := by
    rw [more.cursor, first.cursor, List.length_cons]
    omega
  submissions := by rw [more.submissions, first.submissions, List.append_assoc]; rfl
  inFlight := by rw [more.inFlight, List.append_assoc]; rfl
  length_le := by
    rw [List.length_cons, List.length_cons]
    exact Nat.succ_le_succ more.length_le
  room := by
    have below := first.below
    have room := more.room
    rw [first.cursor] at room
    rw [List.length_cons]
    omega
  todo := more.todo
  fresh := by
    rw [List.forall_mem_cons]
    exact ⟨first.submission.2.2, more.fresh⟩
  nonces := by
    rw [List.map_cons, more.nonces, first.cursor, first.submission.2.1, List.length_cons,
      List.range'_succ]
  idle := more.idle
  now := more.now.trans first.now
  registry := more.registry.trans first.registry
  grows := by
    have later := more.grows
    rw [first.account] at later
    exact first.grows.trans later
  sentBy := by
    have later := more.sentBy
    rw [first.account, first.cursor, first.sentBy, List.append_assoc] at later
    exact later

theorem exists_issued (client : Client σ κ) (w : World σ κ) (r : Runner κ) (calls : List κ) :
    ∃ new, Issued w r calls (issue client w r calls).1 (issue client w r calls).2 new := by
  induction calls generalizing w r with
  | nil =>
    exact ⟨[], Issued.none (Or.inl rfl) (by simp) rfl rfl (.refl _ w) rfl⟩
  | cons call rest ih =>
    unfold issue
    split
    · -- a sequential batch waits for the call that is in flight
      exact ⟨[], Issued.none (Or.inl rfl) (by simp) rfl rfl (.refl _ w) rfl⟩
    · split
      · -- the abort signal is raised
        exact ⟨[], Issued.none (Or.inr rfl) (by simp) rfl rfl (World.growsTo_notify w _ trivial)
          (World.sent_notify w _)⟩
      · split
        · -- there is no nonce left
          exact ⟨[], Issued.none (Or.inl rfl) (by simp) rfl rfl (.refl _ w) rfl⟩
        · rename_i w₁ t s submitted
          obtain ⟨new, more⟩ := ih w₁ { r with tracker := t, inFlight := r.inFlight ++ [s] }
          exact ⟨s :: new, Issued.cons (.of_submit? submitted) more⟩

/-! ### Effects outside the batch -/

/-- What others see of the work of a batch: its tracker stays with its account, the registry stays
as it is, and the log gets notices and calls of that account. -/
structure Acts (w : World σ κ) (r : Runner κ) (w' : World σ κ) (r' : Runner κ) : Prop where
  account : r'.tracker.account = r.tracker.account
  registry : w'.registry = w.registry
  grows : World.GrowsTo (Entry.IsBy r.tracker.account) w w'

theorem Acts.trans {w w' w'' : World σ κ} {r r' r'' : Runner κ} (h : Acts w r w' r')
    (h' : Acts w' r' w'' r'') : Acts w r w'' r'' where
  account := h'.account.trans h.account
  registry := h'.registry.trans h.registry
  grows := by
    have grows := h'.grows
    rw [h.account] at grows
    exact h.grows.trans grows

theorem tracker_awaitNext (client : Client σ κ) (w : World σ κ) (r : Runner κ) :
    (r.awaitNext client w).tracker = r.tracker := by
  unfold awaitNext
  split <;> rfl

theorem todo_awaitNext (client : Client σ κ) (w : World σ κ) (r : Runner κ) :
    (r.awaitNext client w).todo = r.todo := by
  unfold awaitNext
  split <;> rfl

theorem acts_proceed (client : Client σ κ) (w : World σ κ) (r : Runner κ) :
    Acts w r (r.proceed client w).1 (r.proceed client w).2 := by
  obtain ⟨new, more⟩ := exists_issued client w r r.todo
  exact {
    account := (congrArg Tracker.account (tracker_awaitNext ..)).trans more.account
    registry := more.registry
    grows := more.grows }

/-- The world once the log has been told what came by the end of a wait. -/
def heard (client : Client σ κ) (w : World σ κ) (r : Runner κ) (nonce : Nat) (outcome : Outcome) :
    World σ κ :=
  let told := w.notifyAt (r.tracker.notices client.errors w.now)
  if outcome = .timedOut then
    told.notify (.gaveUp r.tracker.account nonce r.options.timeout)
  else told

/-- The runner once it has collected the outcome of a wait. -/
def withOutcome (client : Client σ κ) (w : World σ κ) (r : Runner κ) (outcome : Outcome) :
    Runner κ :=
  { r with
    tracker := r.tracker.settle client.errors w.now
    outcomes := r.outcomes ++ [outcome]
    stage := .finished }

theorem collect_eq (client : Client σ κ) (w : World σ κ) (r : Runner κ) (nonce : Nat)
    (outcome : Outcome) :
    r.collect client w nonce outcome =
      if r.options.stopsOn outcome then
        ((r.heard client w nonce outcome).notify
            (stopNotice r.mode r.tracker.account nonce),
          { r.withOutcome client w outcome with todo := [], inFlight := [] })
      else (r.withOutcome client w outcome).proceed client (r.heard client w nonce outcome) := rfl

@[simp] theorem now_heard (client : Client σ κ) (w : World σ κ) (r : Runner κ) (nonce : Nat)
    (outcome : Outcome) : (r.heard client w nonce outcome).now = w.now := by
  unfold heard
  split <;> rfl

@[simp] theorem registry_heard (client : Client σ κ) (w : World σ κ) (r : Runner κ) (nonce : Nat)
    (outcome : Outcome) : (r.heard client w nonce outcome).registry = w.registry := by
  unfold heard
  split <;> rfl

@[simp] theorem sent_heard (client : Client σ κ) (w : World σ κ) (r : Runner κ) (nonce : Nat)
    (outcome : Outcome) : (r.heard client w nonce outcome).sent = w.sent := by
  unfold heard
  split <;> simp

theorem growsTo_heard (client : Client σ κ) (w : World σ κ) (r : Runner κ) (nonce : Nat)
    (outcome : Outcome) (a : AccountId) :
    World.GrowsTo (Entry.IsBy a) w (r.heard client w nonce outcome) := by
  have told := World.growsTo_notifyAt (P := Entry.IsBy a) w
    (r.tracker.notices client.errors w.now) fun _ => trivial
  unfold heard
  split
  · exact told.trans (World.growsTo_notify _ _ trivial)
  · exact told

theorem acts_collect (client : Client σ κ) (w : World σ κ) (r : Runner κ) (nonce : Nat)
    (outcome : Outcome) :
    Acts w r (r.collect client w nonce outcome).1 (r.collect client w nonce outcome).2 := by
  have told : Acts w r (r.heard client w nonce outcome) (r.withOutcome client w outcome) :=
    { account := rfl, registry := registry_heard .., grows := growsTo_heard .. }
  rw [collect_eq]
  split
  · exact {
      account := rfl
      registry := told.registry
      grows := told.grows.trans (World.growsTo_notify _ _ trivial) }
  · exact told.trans (acts_proceed ..)

/-- A wait that ends hands over the next calls in order, or none. -/
theorem exists_handed_collect (client : Client σ κ) (w : World σ κ) (r : Runner κ) (nonce : Nat)
    (outcome : Outcome) :
    ∃ k ≤ r.todo.length,
      let p := r.collect client w nonce outcome
      p.2.tracker.submissions.length = r.tracker.submissions.length + k ∧
        p.2.tracker.cursor.next = r.tracker.cursor.next + k ∧
        r.tracker.cursor.next + k ≤ max r.tracker.cursor.next NonceCursor.last ∧
        p.1.sentBy r.tracker.account = w.sentBy r.tracker.account ++
          Sent.series r.tracker.account r.tracker.cursor.next (r.todo.take k) := by
  rw [collect_eq]
  split
  · refine ⟨0, Nat.zero_le _, ?_, rfl, Nat.le_max_left .., ?_⟩
    · exact List.length_map _
    · rw [World.sentBy_of_sent ((World.sent_notify ..).trans (sent_heard ..)), List.take_zero]
      exact (List.append_nil _).symm
  · obtain ⟨new, more⟩ := exists_issued client (r.heard client w nonce outcome)
      (r.withOutcome client w outcome) r.todo
    refine ⟨new.length, more.length_le, ?_, ?_, more.room, ?_⟩
    · have submissions := congrArg List.length more.submissions
      rw [List.length_append] at submissions
      rw [proceed, tracker_awaitNext]
      exact submissions.trans (congrArg (· + new.length) (List.length_map _))
    · rw [proceed, tracker_awaitNext]
      exact more.cursor
    · have sentBy := more.sentBy
      rw [World.sentBy_of_sent (sent_heard ..)] at sentBy
      exact sentBy

theorem run_of_waiting {client : Client σ κ} {w : World σ κ} {r : Runner κ} {nonce wake : Nat}
    {outcome : Outcome} (h : r.stage = .waiting nonce outcome wake) :
    run client w r =
      run client (r.collect client { w with now := max w.now wake } nonce outcome).1
        (r.collect client { w with now := max w.now wake } nonce outcome).2 := by
  rw [run]
  split
  · rename_i stage
    rw [h] at stage
    cases stage
    rfl
  · rename_i other
    exact absurd h (other _ _ _)

theorem run_of_ended {client : Client σ κ} {w : World σ κ} {r : Runner κ}
    (h : ∀ nonce outcome wake, r.stage ≠ .waiting nonce outcome wake) :
    run client w r = (w, r) := by
  rw [run]
  split
  · rename_i stage
    exact absurd stage (h _ _ _)
  · rfl

theorem acts_run (client : Client σ κ) (w : World σ κ) (r : Runner κ) :
    Acts w r (run client w r).1 (run client w r).2 := by
  induction w, r using run.induct client with
  | case1 w r nonce outcome wake stage p =>
    rename_i ih
    rw [run_of_waiting stage]
    have waiting : Acts w r { w with now := max w.now wake } r :=
      { account := rfl, registry := rfl, grows := .later _ w wake }
    exact (waiting.trans (acts_collect ..)).trans ih
  | case2 w r ended =>
    rw [run_of_ended ended]
    exact { account := rfl, registry := rfl, grows := .refl _ w }

theorem acts_start (client : Client σ κ) (w : World σ κ) (t : Tracker) (mode : Mode)
    (options : Options) (calls : List κ) :
    (start client w t mode options calls).2.tracker.account = t.account ∧
      (start client w t mode options calls).1.registry = w.registry ∧
      World.GrowsTo (Entry.IsBy t.account) w (start client w t mode options calls).1 := by
  have acts := acts_proceed client w
    { tracker := t, mode, options, total := calls.length, todo := calls }
  exact ⟨acts.account, acts.registry, acts.grows⟩

theorem acts_runBatch (client : Client σ κ) (w : World σ κ) (t : Tracker) (mode : Mode)
    (options : Options) (calls : List κ) :
    (runBatch client w t mode options calls).2.tracker.account = t.account ∧
      (runBatch client w t mode options calls).1.registry = w.registry ∧
      World.GrowsTo (Entry.IsBy t.account) w (runBatch client w t mode options calls).1 := by
  have acts := (acts_proceed client w
    { tracker := t, mode, options, total := calls.length, todo := calls }).trans
      (acts_run client _ _)
  exact ⟨acts.account, acts.registry, acts.grows⟩

/-! ### The submissions of the tracker -/

/-- What a tracker holds that had the submissions `old` and has handed over `issued`: as it got
them, or with the reports taken that were due at `last`; but all that were handed over after `last`
stand as they were handed over, and the first `count` of the others do not. -/
def Holds (table : ErrorTable) (old issued : List Submission) (count last : Nat)
    (held : List Submission) : Prop :=
  (count = 0 ∧ held = old ++ issued) ∨
    ∃ seen unseen, issued = seen ++ unseen ∧ count ≤ seen.length ∧
      held = (old ++ seen).map (·.settle table last) ++ unseen

theorem Holds.append {table : ErrorTable} {old issued held : List Submission} {count last : Nat}
    (h : Holds table old issued count last held) (new : List Submission) :
    Holds table old (issued ++ new) count last (held ++ new) := by
  rcases h with ⟨zero, rfl⟩ | ⟨seen, unseen, rfl, le, rfl⟩
  · exact Or.inl ⟨zero, List.append_assoc ..⟩
  · exact Or.inr ⟨seen, unseen ++ new, List.append_assoc .., le, List.append_assoc ..⟩

/-- Once the tracker takes the reports due at a later moment, it holds all submissions as of then.
-/
theorem Holds.settle {table : ErrorTable} {old issued held : List Submission}
    {count last now : Nat} (h : Holds table old issued count last held) (le : last ≤ now) :
    held.map (·.settle table now) = (old ++ issued).map (·.settle table now) := by
  rcases h with ⟨_, rfl⟩ | ⟨seen, unseen, rfl, _, rfl⟩
  · rfl
  · have again : ((old ++ seen).map (·.settle table last)).map (·.settle table now) =
        (old ++ seen).map (·.settle table now) := by
      rw [List.map_map]
      apply List.map_congr_left
      intro s _
      exact Submission.settle_settle table le s
    rw [List.map_append, again, ← List.map_append, List.append_assoc]

theorem Holds.length_eq {table : ErrorTable} {old issued held : List Submission} {count last : Nat}
    (h : Holds table old issued count last held) : held.length = old.length + issued.length := by
  rcases h with ⟨_, rfl⟩ | ⟨seen, unseen, rfl, _, rfl⟩
  · exact List.length_append
  · rw [List.length_append, List.length_map, List.length_append, List.length_append, Nat.add_assoc]

/-- The first `count` of the calls handed over are held as of `last`. -/
theorem Holds.take_drop {table : ErrorTable} {old issued held : List Submission} {count last : Nat}
    (h : Holds table old issued count last held) :
    (held.drop old.length).take count = (issued.take count).map (·.settle table last) := by
  rcases h with ⟨rfl, rfl⟩ | ⟨seen, unseen, rfl, le, rfl⟩
  · rfl
  · rw [List.map_append, List.append_assoc, List.drop_left' (List.length_map _),
      List.take_append_of_le_length (by simpa using le), List.take_append_of_le_length le,
      List.map_take]

/-! ### The invariant -/

/-- A batch at its start: how and on which tracker its calls shall be made, when it starts, and what
its account has handed over before. -/
structure Order (κ : Type) where
  mode : Mode
  options : Options
  calls : List κ
  tracker : Tracker
  start : Nat
  before : List (Sent κ)

namespace Order

/-- Waits for calls of the batch one after the other, from its start on. -/
def waits (o : Order κ) (table : ErrorTable) (subs : List Submission) : List (Outcome × Nat) :=
  Submission.waits table (o.options.levelOf o.mode) o.options.timeout o.start subs

/-- When the last of these waits ends. -/
def waitsEnd (o : Order κ) (table : ErrorTable) (subs : List Submission) : Nat :=
  Submission.waitsEnd table (o.options.levelOf o.mode) o.options.timeout o.start subs

/-- The first calls of the batch, under consecutive nonces from the tracker's cursor on. -/
def series (o : Order κ) (count : Nat) : List (Sent κ) :=
  Sent.series o.tracker.account o.tracker.cursor.next (o.calls.take count)

end Order

/-- **The invariant of a batch.** It has handed over `issued` since its start, has collected the
outcomes of the first of them, and the last wait for these ended at `last`. -/
structure Inv (table : ErrorTable) (o : Order κ) (issued : List Submission) (last : Nat)
    (w : World σ κ) (r : Runner κ) : Prop where
  mode : r.mode = o.mode
  options : r.options = o.options
  account : r.tracker.account = o.tracker.account
  cursor : r.tracker.cursor.next = o.tracker.cursor.next + issued.length
  issued_le : issued.length ≤ o.calls.length
  outcomes_le : r.outcomes.length ≤ issued.length
  todo : r.todo = o.calls.drop issued.length ∨ r.todo = []
  fresh : ∀ s ∈ issued, s.watch = {}
  nonces : issued.map (·.nonce) = List.range' o.tracker.cursor.next issued.length
  sentBy : w.sentBy o.tracker.account = o.before ++ o.series issued.length
  outcomes : r.outcomes = (o.waits table (issued.take r.outcomes.length)).map (·.1)
  last_eq : last = o.waitsEnd table (issued.take r.outcomes.length)
  holds : Holds table o.tracker.submissions issued r.outcomes.length last r.tracker.submissions

/-- A batch at a point where it waits or has ended: it waits for the first call whose outcome it has
not collected, and that wait started when the last one ended. -/
structure Paused (table : ErrorTable) (o : Order κ) (issued : List Submission) (last : Nat)
    (w : World σ κ) (r : Runner κ) : Prop where
  inv : Inv table o issued last w r
  waiting : ∀ nonce outcome wake, r.stage = .waiting nonce outcome wake →
    ∃ s, issued.drop r.outcomes.length = s :: r.inFlight ∧ s.nonce = nonce ∧
      s.wait table (o.options.levelOf o.mode) last o.options.timeout = (outcome, wake)

section

variable {client : Client σ κ} {o : Order κ} {issued : List Submission} {last : Nat}
  {w w' : World σ κ} {r r' : Runner κ}

/-- The batch at its start. -/
theorem inv_start (table : ErrorTable) (w : World σ κ) (t : Tracker) (mode : Mode)
    (options : Options) (calls : List κ) :
    Inv table ⟨mode, options, calls, t, w.now, w.sentBy t.account⟩ [] w.now w
      { tracker := t, mode, options, total := calls.length, todo := calls } where
  mode := rfl
  options := rfl
  account := rfl
  cursor := rfl
  issued_le := Nat.zero_le _
  outcomes_le := Nat.le_refl _
  todo := Or.inl rfl
  fresh := by simp
  nonces := rfl
  sentBy := (List.append_nil _).symm
  outcomes := rfl
  last_eq := rfl
  holds := Or.inl ⟨rfl, (List.append_nil _).symm⟩

/-- Handing over calls keeps the invariant. -/
theorem Inv.issue {table : ErrorTable} {new : List Submission} (h : Inv table o issued last w r)
    (more : Issued w r r.todo w' r' new) : Inv table o (issued ++ new) last w' r' := by
  have outcomes_le := h.outcomes_le
  have taken : (issued ++ new).take r.outcomes.length = issued.take r.outcomes.length :=
    List.take_append_of_le_length outcomes_le
  -- what is left to do is what was not handed over yet, or nothing
  have left : new.length ≤ (o.calls.drop issued.length).length := by
    rcases h.todo with todo | todo
    · rw [← todo]
      exact more.length_le
    · have none : new.length ≤ 0 := by simpa [todo] using more.length_le
      omega
  have next : r.todo.take new.length = (o.calls.drop issued.length).take new.length := by
    rcases h.todo with todo | todo
    · rw [todo]
    · have none : new.length = 0 := by simpa [todo] using more.length_le
      rw [none, List.take_zero, List.take_zero]
  rw [List.length_drop] at left
  have issued_le := h.issued_le
  exact {
    mode := more.mode.trans h.mode
    options := more.options.trans h.options
    account := more.account.trans h.account
    cursor := by rw [more.cursor, h.cursor, List.length_append, Nat.add_assoc]
    issued_le := by rw [List.length_append]; omega
    outcomes_le := by rw [more.outcomes, List.length_append]; omega
    todo := by
      rcases more.todo with todo | todo
      · rcases h.todo with todo' | todo'
        · left
          rw [todo, todo', List.drop_drop, List.length_append]
        · right
          rw [todo, todo', List.drop_nil]
      · exact Or.inr todo
    fresh := by
      intro s mem
      rcases List.mem_append.mp mem with mem | mem
      · exact h.fresh s mem
      · exact more.fresh s mem
    nonces := by
      rw [List.map_append, h.nonces, more.nonces, h.cursor, List.length_append,
        List.range'_append_1]
    sentBy := by
      have sentBy := more.sentBy
      rw [h.account, h.cursor, h.sentBy, next, List.append_assoc] at sentBy
      rw [sentBy, Order.series, Order.series, List.length_append, List.take_add,
        Sent.series_append, List.length_take_of_le issued_le]
    outcomes := by rw [more.outcomes, taken]; exact h.outcomes
    last_eq := by rw [more.outcomes, taken]; exact h.last_eq
    holds := by rw [more.outcomes, more.submissions]; exact h.holds.append new }

/-- Going on to the next wait keeps the invariant. -/
theorem Inv.awaitNext (h : Inv client.errors o issued w.now w r)
    (inFlight : r.inFlight = issued.drop r.outcomes.length)
    (idle : ∀ nonce outcome wake, r.stage ≠ .waiting nonce outcome wake) :
    Paused client.errors o issued w.now w (r.awaitNext client w) := by
  unfold Runner.awaitNext
  split
  · rename_i s rest _ flying
    exact {
      inv := { h with }
      waiting := by
        intro nonce outcome wake stage
        cases stage
        refine ⟨s, ?_, rfl, ?_⟩
        · rw [← inFlight, flying]
        · rw [← h.mode, ← h.options]
          rfl }
  · exact {
      inv := h
      waiting := fun nonce outcome wake stage => absurd stage (idle nonce outcome wake) }

/-- Submitting what may be submitted and going on to the next wait keeps the invariant. -/
theorem Inv.proceed (h : Inv client.errors o issued w.now w r)
    (inFlight : r.inFlight = issued.drop r.outcomes.length) :
    ∃ issued', Paused client.errors o issued' (r.proceed client w).1.now (r.proceed client w).1
      (r.proceed client w).2 := by
  obtain ⟨new, more⟩ := exists_issued client w r r.todo
  have inv := h.issue more
  have flying : (Runner.issue client w r r.todo).2.inFlight =
      (issued ++ new).drop (Runner.issue client w r r.todo).2.outcomes.length := by
    rw [more.inFlight, inFlight, more.outcomes, List.drop_append_of_le_length h.outcomes_le]
  rw [← more.now] at inv
  exact ⟨issued ++ new, inv.awaitNext flying more.idle⟩

/-- Collecting the outcome of the present wait keeps the invariant: one more call is done. -/
theorem Paused.withOutcome {nonce wake : Nat} {outcome : Outcome}
    (h : Paused client.errors o issued last w r) (stage : r.stage = .waiting nonce outcome wake)
    (now : w.now = wake) :
    Inv client.errors o issued wake (r.heard client w nonce outcome)
        (r.withOutcome client w outcome) ∧
      (r.withOutcome client w outcome).inFlight =
        issued.drop (r.withOutcome client w outcome).outcomes.length := by
  -- the outcome is that of the first call in flight, which stands behind those collected
  obtain ⟨s, flying, -, waited⟩ := h.waiting nonce outcome wake stage
  have inv := h.inv
  have count : (r.withOutcome client w outcome).outcomes.length = r.outcomes.length + 1 :=
    List.length_append ..
  have taken : issued.take (r.outcomes.length + 1) = issued.take r.outcomes.length ++ [s] := by
    rw [List.take_add, flying]
    rfl
  have late : last ≤ wake := by
    have bounds := s.wait_bounds client.errors (o.options.levelOf o.mode) last o.options.timeout
    rw [waited] at bounds
    exact bounds.1
  have ended : o.waitsEnd client.errors (issued.take (r.outcomes.length + 1)) = wake := by
    rw [taken, Order.waitsEnd, Submission.waitsEnd_concat, ← Order.waitsEnd, ← inv.last_eq, waited]
  have collected : (o.waits client.errors (issued.take (r.outcomes.length + 1))).map (·.1) =
      r.outcomes ++ [outcome] := by
    rw [taken, Order.waits, Submission.waits_concat, ← Order.waitsEnd, ← inv.last_eq, waited,
      List.map_append, ← Order.waits, ← inv.outcomes]
    rfl
  refine ⟨{
    mode := inv.mode
    options := inv.options
    account := inv.account
    cursor := inv.cursor
    issued_le := inv.issued_le
    outcomes_le := ?_
    todo := inv.todo
    fresh := inv.fresh
    nonces := inv.nonces
    sentBy := ?_
    outcomes := by rw [count, collected]; rfl
    last_eq := by rw [count, ended]
    holds := ?_ }, ?_⟩
  -- one call more is collected
  · have length := congrArg List.length flying
    rw [List.length_drop, List.length_cons] at length
    rw [count]
    omega
  · rw [World.sentBy_of_sent (sent_heard ..), inv.sentBy]
  · right
    refine ⟨issued, [], (List.append_nil _).symm, ?_, ?_⟩
    · have length := congrArg List.length flying
      rw [List.length_drop, List.length_cons] at length
      rw [count]
      omega
    · rw [List.append_nil, ← now]
      rw [← now] at late
      exact inv.holds.settle late
  · rw [count, ← List.drop_drop, flying]
    rfl

/-- **The invariant, after a wait.** -/
theorem Paused.collect {nonce wake : Nat} {outcome : Outcome}
    (h : Paused client.errors o issued last w r) (stage : r.stage = .waiting nonce outcome wake)
    (now : w.now = wake) :
    ∃ issued', Paused client.errors o issued' (r.collect client w nonce outcome).1.now
      (r.collect client w nonce outcome).1 (r.collect client w nonce outcome).2 := by
  obtain ⟨inv, flying⟩ := h.withOutcome stage now
  rw [← now, ← now_heard client w r nonce outcome] at inv
  rw [collect_eq]
  split
  · refine ⟨issued, ?_, ?_⟩
    · exact { inv with
        todo := Or.inr rfl
        sentBy := by rw [World.sentBy_of_sent (World.sent_notify ..), inv.sentBy] }
    · intro nonce outcome wake stage
      cases stage
  · exact inv.proceed flying

end

/-! ### Whole batches -/

theorem exists_inv_run {client : Client σ κ} {o : Order κ} {issued : List Submission}
    {w : World σ κ} {r : Runner κ} (h : Paused client.errors o issued w.now w r) :
    ∃ issued', Inv client.errors o issued' (run client w r).1.now (run client w r).1
      (run client w r).2 := by
  induction w, r using run.induct client generalizing issued with
  | case1 w r nonce outcome wake stage p =>
    rename_i ih
    rw [run_of_waiting stage]
    -- the clock is at the end of the wait, as it never passes a moment at which one ends
    obtain ⟨s, -, -, waited⟩ := h.waiting nonce outcome wake stage
    have bounds := s.wait_bounds client.errors (o.options.levelOf o.mode) w.now o.options.timeout
    rw [waited] at bounds
    have now : max w.now wake = wake := max_eq_right bounds.1
    have later : Paused client.errors o issued w.now { w with now := max w.now wake } r :=
      { h with inv := { h.inv with } }
    obtain ⟨issued', paused⟩ := later.collect stage now
    exact ih paused
  | case2 w r ended =>
    rw [run_of_ended ended]
    exact ⟨issued, h.inv⟩

/-- **A whole batch.** At its end the calls handed over are a prefix of its calls, and the outcomes
are those of waits for the first of them. -/
theorem exists_inv_runBatch (client : Client σ κ) (w : World σ κ) (t : Tracker) (mode : Mode)
    (options : Options) (calls : List κ) :
    let p := runBatch client w t mode options calls
    ∃ issued, Inv client.errors ⟨mode, options, calls, t, w.now, w.sentBy t.account⟩ issued p.1.now
      p.1 p.2 := by
  obtain ⟨issued, paused⟩ := (inv_start client.errors w t mode options calls).proceed rfl
  exact exists_inv_run paused

/-! ### Batches whose calls were all accepted -/

section

variable {table : ErrorTable} {o : Order κ} {issued : List Submission} {last : Nat}
  {w : World σ κ} {r : Runner κ}

/-- A batch with an outcome for each of its calls has handed all of them over. -/
theorem Inv.length_issued (h : Inv table o issued last w r)
    (all : r.outcomes.length = o.calls.length) : issued.length = o.calls.length := by
  have collected := h.outcomes_le
  have handed := h.issued_le
  omega

/-- Its tracker holds them as they were when the last wait ended. -/
theorem Inv.submissions_eq (h : Inv table o issued last w r)
    (all : r.outcomes.length = o.calls.length) (empty : o.tracker.submissions = []) :
    r.tracker.submissions = issued.map (·.settle table last) := by
  have count : r.outcomes.length = issued.length := all.trans (h.length_issued all).symm
  have held := h.holds.take_drop
  have length := h.holds.length_eq
  rw [empty, List.length_nil, Nat.zero_add, ← count] at length
  rw [empty, List.length_nil, List.drop_zero, ← length, List.take_length, length, count,
    List.take_length] at held
  exact held

/-- **A batch at the finalized level whose calls were all accepted**: every call is final and was
not reverted, whatever is reported later. -/
theorem Inv.final (h : Inv table o issued last w r) (all : r.outcomes.length = o.calls.length)
    (empty : o.tracker.submissions = []) (level : o.options.levelOf o.mode = .finalized)
    (accepted : ∀ outcome ∈ r.outcomes, outcome.isAccepted = true) :
    ∀ s ∈ r.tracker.submissions, ∃ block,
      ∀ now, (s.settle table now).watch.status = .finalized block none := by
  have count : r.outcomes.length = issued.length := all.trans (h.length_issued all).symm
  have outcomes := h.outcomes
  have last_eq := h.last_eq
  -- all calls that were handed over have been waited for at the finalized level
  rw [count, List.take_length, Order.waits, level] at outcomes
  rw [count, List.take_length, Order.waitsEnd, level] at last_eq
  have final := Submission.finalized_of_waits table o.options.timeout h.fresh
    (by
      intro p mem
      apply accepted
      rw [outcomes]
      exact List.mem_map_of_mem mem)
    last_eq.ge
  rw [h.submissions_eq all empty]
  intro s mem
  obtain ⟨s₀, handed, rfl⟩ := List.mem_map.mp mem
  obtain ⟨block, status⟩ := final s₀ handed
  refine ⟨block, ?_⟩
  intro now
  -- a final status lasts
  have sound : (s₀.settle table last).watch.Sound :=
    (Submission.sound_of_fresh (h.fresh s₀ handed)).after _ _
  have terminal : (s₀.settle table last).watch.status.isTerminal = true := by
    rw [status]
    rfl
  rw [Submission.status_settle_self table sound terminal, status]

end

end Runner

end ShellSale
