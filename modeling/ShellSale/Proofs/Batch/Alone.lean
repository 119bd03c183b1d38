import ShellSale.Proofs.Batch.Work

/-!
## Batches run together and alone

Tasks of several signers share the clock, the registry, the node and the abort signal. If the node
answers each account without regard to the others, then a task run among others does just what it
does when its batch is run alone.

* `World.Alike` are two worlds that are the same for one account. Work for another account keeps a
  world alike (`World.Untouched.of_steps`), and its own work takes alike worlds to alike worlds
  (`Runner.abreast_issue`, `Runner.abreast_collect`).
* `SignerTask.Shadow` ties a task among others to the same task run alone. Every step keeps it
  (`Shadow.resume`, `Shadow.untouched`).
* `alone_of_runs`: a task among others and alone. So the order of the rounds does not matter
  (`eq_tasksOf_of_runs`).
-/

namespace ShellSale

variable {σ κ ν : Type}

/-! ### Nodes that keep accounts apart -/

/-- A node that answers each account without regard to the others: what it makes of an account's
nonce and calls depends on a part of its state that no other account changes. -/
structure Client.Separate (client : Client σ κ) (view : AccountId → σ → ν) : Prop where
  nonce : ∀ {n n' : σ} {a : AccountId} (now : Nat), view a n = view a n' →
    (client.nonce n now a).1 = (client.nonce n' now a).1 ∧
      view a (client.nonce n now a).2 = view a (client.nonce n' now a).2
  handOver : ∀ {n n' : σ} {a : AccountId} (now nonce : Nat) (call : κ), view a n = view a n' →
    (client.handOver n now a nonce call).1.feed = (client.handOver n' now a nonce call).1.feed ∧
      view a (client.handOver n now a nonce call).2 = view a (client.handOver n' now a nonce call).2
  nonce_other : ∀ {a b : AccountId} (n : σ) (now : Nat), a ≠ b →
    view a (client.nonce n now b).2 = view a n
  handOver_other : ∀ {a b : AccountId} (n : σ) (now nonce : Nat) (call : κ), a ≠ b →
    view a (client.handOver n now b nonce call).2 = view a n

/-- No call fires the abort handle of the options. -/
def Client.Spares (client : Client σ κ) (o : Options) : Prop :=
  ∀ handle, o.abort = some handle → ∀ n now a nonce call,
    ∀ firing ∈ (client.handOver n now a nonce call).1.firings, firing.2 ≠ handle

namespace World

/-! ### Worlds alike for one account -/

/-- Two worlds that are the same for an account: what the node makes of it, when the signal of the
options is raised, and the calls handed over so far. -/
structure Alike (view : AccountId → σ → ν) (o : Options) (a : AccountId) (w v : World σ κ) :
    Prop where
  node : view a w.node = view a v.node
  aborted : ∀ m, ({ w with now := m } : World σ κ).aborted o =
    ({ v with now := m } : World σ κ).aborted o
  calls : w.callsBy a = v.callsBy a

/-- Two worlds that are alike for an account, at the same moment. -/
structure Abreast (view : AccountId → σ → ν) (o : Options) (a : AccountId) (w v : World σ κ) :
    Prop extends Alike view o a w v where
  now : w.now = v.now

/-- A world that work for other accounts leaves alike for an account. -/
structure Untouched (view : AccountId → σ → ν) (o : Options) (a : AccountId) (w w' : World σ κ) :
    Prop extends Abreast view o a w w' where
  held : a ∈ w'.registry.held ↔ a ∈ w.registry.held

variable {view : AccountId → σ → ν} {o : Options} {a : AccountId} {w w' v v' : World σ κ}

theorem Alike.trans (h : Alike view o a w w') (h' : Alike view o a w' v) : Alike view o a w v where
  node := h.node.trans h'.node
  aborted m := (h.aborted m).trans (h'.aborted m)
  calls := h.calls.trans h'.calls

theorem Alike.symm (h : Alike view o a w v) : Alike view o a v w where
  node := h.node.symm
  aborted m := (h.aborted m).symm
  calls := h.calls.symm

theorem Abreast.trans (h : Abreast view o a w w') (h' : Abreast view o a w' v) :
    Abreast view o a w v where
  toAlike := h.toAlike.trans h'.toAlike
  now := h.now.trans h'.now

theorem Abreast.symm (h : Abreast view o a w v) : Abreast view o a v w where
  toAlike := h.toAlike.symm
  now := h.now.symm

theorem Untouched.refl (view : AccountId → σ → ν) (o : Options) (a : AccountId) (w : World σ κ) :
    Untouched view o a w w :=
  ⟨⟨⟨rfl, fun _ => rfl, rfl⟩, rfl⟩, Iff.rfl⟩

theorem Untouched.trans (h : Untouched view o a w w') (h' : Untouched view o a w' v) :
    Untouched view o a w v where
  toAbreast := h.toAbreast.trans h'.toAbreast
  held := h'.held.trans h.held

/-- Firings of other handles do not raise the signal of the options. -/
theorem aborted_handOver {client : Client σ κ} (spares : client.Spares o) (w : World σ κ)
    (b : AccountId) (nonce : Nat) (call : κ) (m : Nat) :
    ({ w.handOver client b nonce call with now := m } : World σ κ).aborted o =
      ({ w with now := m } : World σ κ).aborted o := by
  unfold World.aborted
  cases given : o.abort with
  | none => rfl
  | some handle =>
    have others : (client.handOver w.node w.now b nonce call).1.firings.any
        (fun firing => firing.1 ≤ m && firing.2 == handle) = false := by
      rw [List.any_eq_false]
      intro firing fired
      simp [spares handle given w.node w.now b nonce call firing fired]
    show (w.aborts.schedule _).isRaised m handle = w.aborts.isRaised m handle
    simp only [AbortBoard.isRaised, AbortBoard.schedule, List.any_append, others, Bool.or_false]

/-- **Work of others.** A step of work for another account leaves a world alike. -/
theorem Untouched.of_step {client : Client σ κ} (separate : client.Separate view)
    (spares : client.Spares o) {b : AccountId} (ne : a ≠ b) (h : Step client b w w') :
    Untouched view o a w w' := by
  have same := Untouched.refl view o a w
  cases h with
  | ask => exact { same with node := (separate.nonce_other w.node w.now ne).symm }
  | claim => exact { same with held := by simp [ne] }
  | release => exact { same with held := List.mem_erase_of_ne ne }
  | tell notices => exact { same with calls := (callsBy_notifyAt w notices a).symm }
  | handOver nonce call =>
    exact { same with
      node := (separate.handOver_other w.node w.now nonce call ne).symm
      aborted := fun m => (aborted_handOver spares w b nonce call m).symm
      calls := by rw [callsBy_handOver, if_neg ne.symm, List.append_nil] }

theorem Untouched.of_steps {client : Client σ κ} (separate : client.Separate view)
    (spares : client.Spares o) {b : AccountId} (ne : a ≠ b) (h : Steps client b w w') :
    Untouched view o a w w' := by
  induction h with
  | refl => exact .refl view o a w
  | tail _ step ih => exact ih.trans (.of_step separate spares ne step)

/-! ### Own work in alike worlds -/

theorem Abreast.notifyAt (h : Abreast view o a w v) (ns ns' : List (Nat × Notice)) :
    Abreast view o a (w.notifyAt ns) (v.notifyAt ns') :=
  { h with calls := by rw [callsBy_notifyAt, callsBy_notifyAt, h.calls] }

theorem Abreast.notify (h : Abreast view o a w v) (n n' : Notice) :
    Abreast view o a (w.notify n) (v.notify n') :=
  h.notifyAt [(w.now, n)] [(v.now, n')]

theorem Abreast.handOver {client : Client σ κ} (separate : client.Separate view)
    (spares : client.Spares o) (h : Abreast view o a w v) (nonce : Nat) (call : κ) :
    Abreast view o a (w.handOver client a nonce call) (v.handOver client a nonce call) where
  node := by
    have same := (separate.handOver w.now nonce call h.node).2
    exact same.trans (by rw [h.now]; rfl)
  aborted m := by
    rw [aborted_handOver spares, aborted_handOver spares]
    exact h.aborted m
  calls := by rw [callsBy_handOver, callsBy_handOver, h.calls, h.now]
  now := h.now

end World

/-! ### Runners in alike worlds -/

/-- What matters of a submission to whoever waits for it: all but its serial number. -/
def Submission.contents (s : Submission) : Nat × Watch × Feed :=
  (s.nonce, s.watch, s.feed)

theorem Submission.wait_of_contents {s s' : Submission} (h : s.contents = s'.contents)
    (table : ErrorTable) (level : Level) (now timeout : Nat) :
    s.wait table level now timeout = s'.wait table level now timeout := by
  simp only [contents, Prod.mk.injEq] at h
  rw [wait, wait, h.2.1, h.2.2]

namespace Runner

/-- Two runners of one batch of an account that differ in the serial numbers of submissions only. -/
structure Alike (o : Options) (a : AccountId) (r r' : Runner κ) : Prop where
  mode : r.mode = r'.mode
  options : r.options = o
  options' : r'.options = o
  account : r.tracker.account = a
  account' : r'.tracker.account = a
  cursor : r.tracker.cursor = r'.tracker.cursor
  todo : r.todo = r'.todo
  inFlight : r.inFlight.map Submission.contents = r'.inFlight.map Submission.contents
  outcomes : r.outcomes = r'.outcomes
  stage : r.stage = r'.stage

variable {client : Client σ κ} {view : AccountId → σ → ν} {o : Options} {a : AccountId}
  {w v : World σ κ} {r r' : Runner κ}

theorem Alike.inFlight_eq_nil_iff (h : Alike o a r r') : r.inFlight = [] ↔ r'.inFlight = [] := by
  rw [← List.map_eq_nil_iff (f := Submission.contents), h.inFlight, List.map_eq_nil_iff]

/-- Runners hand over the same calls in alike worlds. -/
theorem abreast_issue (separate : client.Separate view) (spares : client.Spares o)
    (h : w.Abreast view o a v) (same : Alike o a r r') (calls : List κ) :
    (issue client w r calls).1.Abreast view o a (issue client v r' calls).1 ∧
      Alike o a (issue client w r calls).2 (issue client v r' calls).2 := by
  induction calls generalizing w v r r' with
  | nil => exact ⟨h, { same with todo := rfl, stage := rfl }⟩
  | cons call rest ih =>
    unfold issue
    -- both runners hold back in the same cases, since one has a call in flight if the other has
    have busy : (r.mode = .sequential ∧ r.inFlight ≠ []) ↔
        (r'.mode = .sequential ∧ r'.inFlight ≠ []) := by
      rw [same.mode, ne_eq, ne_eq, same.inFlight_eq_nil_iff]
    by_cases waits : r.mode = .sequential ∧ r.inFlight ≠ []
    · rw [if_pos waits, if_pos (busy.mp waits)]
      exact ⟨h, { same with todo := rfl, stage := rfl }⟩
    rw [if_neg waits, if_neg (mt busy.mpr waits)]
    have aborted : w.aborted r.options = v.aborted r'.options := by
      rw [same.options, same.options']
      exact (h.aborted w.now).trans (by rw [h.now])
    rw [aborted]
    by_cases raised : v.aborted r'.options = true
    · rw [if_pos raised, if_pos raised]
      exact ⟨h.notify _ _, { same with todo := rfl, stage := rfl }⟩
    rw [if_neg raised, if_neg raised]
    -- both give the call the same nonce, and the node answers them alike
    have next : r.tracker.cursor.next = r'.tracker.cursor.next := by rw [same.cursor]
    by_cases below : r.tracker.cursor.next < NonceCursor.last
    · have below' : r'.tracker.cursor.next < NonceCursor.last := next ▸ below
      have handed : (w.handOver client r.tracker.account r.tracker.cursor.next call).Abreast view
          o a (v.handOver client r'.tracker.account r'.tracker.cursor.next call) := by
        rw [same.account, same.account', ← next]
        exact h.handOver separate spares _ call
      have fed := (separate.handOver w.now r.tracker.cursor.next call h.node).1
      rw [Tracker.submit?_of_lt below, Tracker.submit?_of_lt below']
      refine ih handed { same with cursor := by rw [next], inFlight := ?_ }
      simp only [List.map_append, same.inFlight, List.map_cons, List.map_nil, Tracker.next,
        Submission.contents, same.account, same.account', ← next, ← h.now, fed]
    · have full : NonceCursor.last ≤ r.tracker.cursor.next := Nat.le_of_not_lt below
      rw [Tracker.submit?_eq_none_iff.mpr full, Tracker.submit?_eq_none_iff.mpr (next ▸ full)]
      exact ⟨h, { same with todo := rfl, stage := rfl }⟩

theorem Alike.awaitNext (now : w.now = v.now) (same : Alike o a r r') :
    Alike o a (r.awaitNext client w) (r'.awaitNext client v) := by
  by_cases idle : r.stage = .finished
  · have idle' : r'.stage = .finished := same.stage ▸ idle
    have inFlight := same.inFlight
    cases flying : r.inFlight with
    | nil =>
      rw [awaitNext_of_nil flying, awaitNext_of_nil (same.inFlight_eq_nil_iff.mp flying)]
      exact same
    | cons s rest =>
      rw [flying, List.map_cons] at inFlight
      obtain ⟨s', rest', flying', contents, others⟩ := List.map_eq_cons_iff.mp inFlight.symm
      have waited : s.wait client.errors (r.options.levelOf r.mode) w.now r.options.timeout =
          s'.wait client.errors (r'.options.levelOf r'.mode) v.now r'.options.timeout := by
        rw [same.mode, same.options, same.options', now]
        exact Submission.wait_of_contents contents.symm ..
      have nonce : s.nonce = s'.nonce := (congrArg Prod.fst contents).symm
      rw [awaitNext_of_cons idle flying, awaitNext_of_cons idle' flying']
      exact { same with inFlight := others.symm, stage := by rw [waited, nonce] }
  · rw [awaitNext_of_ne idle, awaitNext_of_ne (same.stage ▸ idle)]
    exact same

/-- Runners go on to the same wait in alike worlds. -/
theorem abreast_proceed (separate : client.Separate view) (spares : client.Spares o)
    (h : w.Abreast view o a v) (same : Alike o a r r') :
    (r.proceed client w).1.Abreast view o a (r'.proceed client v).1 ∧
      Alike o a (r.proceed client w).2 (r'.proceed client v).2 := by
  have issued := abreast_issue separate spares h same r.todo
  rw [proceed, proceed, ← same.todo]
  exact ⟨issued.1, issued.2.awaitNext issued.1.now⟩

/-- Runners take the same outcome to the same next wait, or to the same end. -/
theorem abreast_collect (separate : client.Separate view) (spares : client.Spares o)
    (h : w.Abreast view o a v) (same : Alike o a r r') (nonce : Nat) (outcome : Outcome) :
    (r.collect client w nonce outcome).1.Abreast view o a (r'.collect client v nonce outcome).1 ∧
      Alike o a (r.collect client w nonce outcome).2 (r'.collect client v nonce outcome).2 := by
  have told : (r.heard client w nonce outcome).Abreast view o a
      (r'.heard client v nonce outcome) := by
    have noticed := h.notifyAt (r.tracker.notices client.errors w.now)
      (r'.tracker.notices client.errors v.now)
    unfold heard
    split
    · exact noticed.notify _ _
    · exact noticed
  have collected : Alike o a (r.withOutcome client w outcome) (r'.withOutcome client v outcome) :=
    { same with outcomes := by rw [withOutcome, withOutcome, same.outcomes], stage := rfl }
  rw [collect_eq, collect_eq, same.options, same.options']
  split
  · exact ⟨told.notify _ _, { collected with todo := rfl, inFlight := rfl }⟩
  · exact abreast_proceed separate spares told collected

/-- A wait that a runner goes on to ends at the present moment or later. -/
theorem le_wake_proceed {nonce wake : Nat} {outcome : Outcome}
    (h : (r.proceed client w).2.stage = .waiting nonce outcome wake) :
    (r.proceed client w).1.now ≤ wake := by
  obtain ⟨new, issued⟩ := exists_issued client w r r.todo
  rw [proceed] at h ⊢
  generalize issue client w r r.todo = p at h issued
  obtain ⟨w', r'⟩ := p
  dsimp only at h issued ⊢
  by_cases idle : r'.stage = .finished
  · cases flying : r'.inFlight with
    | nil =>
      rw [awaitNext_of_nil flying] at h
      exact absurd h (issued.idle nonce outcome wake)
    | cons s rest =>
      rw [awaitNext_of_cons idle flying] at h
      injection h with _ _ ends
      rw [← ends]
      exact (s.wait_bounds ..).1
  · rw [awaitNext_of_ne idle] at h
    exact absurd h (issued.idle nonce outcome wake)

theorem le_wake_collect {nonce wake nonce' : Nat} {outcome outcome' : Outcome}
    (h : (r.collect client w nonce' outcome').2.stage = .waiting nonce outcome wake) :
    (r.collect client w nonce' outcome').1.now ≤ wake := by
  rw [collect_eq] at h ⊢
  split
  · rename_i stops
    rw [if_pos stops] at h
    cases h
  · rename_i goesOn
    rw [if_neg goesOn] at h
    exact le_wake_proceed h

end Runner

namespace SignerTask

variable {client : Client σ κ} {view : AccountId → σ → ν} {o : Options} {a : AccountId}
  {w w' v : World σ κ} {t t' : SignerTask κ}

/-! ### Tasks among others and alone -/

/-- States of a task of an account that differ in the serial numbers of submissions only. -/
inductive State.Alike (o : Options) (a : AccountId) : State κ → State κ → Prop
  | running {r r' : Runner κ} (same : Runner.Alike o a r r') :
    State.Alike o a (.running r) (.running r')
  | ended (result : Except PipelineError (List Outcome)) :
    State.Alike o a (.ended result) (.ended result)

/-- A task among others in the world `w` and the same task alone in the world `v`, which may be
behind in time. -/
structure Shadow (view : AccountId → σ → ν) (o : Options) (w : World σ κ) (t : SignerTask κ)
    (v : World σ κ) (t' : SignerTask κ) : Prop where
  account : t'.account = t.account
  number : t'.number = t.number
  alike : w.Alike view o t.account v
  now_le : v.now ≤ w.now
  state : t.state.Alike o t.account t'.state
  le_wake : ∀ wake, t.wake? = some wake → w.now ≤ wake

theorem State.Alike.wake?_eq (h : t.state.Alike o a t'.state) : t.wake? = t'.wake? := by
  unfold wake?
  generalize t.state = s at h ⊢
  generalize t'.state = s' at h ⊢
  cases h with
  | running same => simp only [same.stage]
  | ended result => rfl

/-- A task that has ended is the same task alone. -/
theorem Shadow.eq_of_ended (h : Shadow view o w t v t')
    {result : Except PipelineError (List Outcome)} (ended : t.state = .ended result) : t' = t := by
  obtain ⟨account, number, state⟩ := t
  obtain ⟨account', number', state'⟩ := t'
  obtain rfl : account' = account := h.account
  obtain rfl : number' = number := h.number
  obtain rfl : state = .ended result := ended
  obtain ⟨⟩ : State.Alike o account' (.ended result) state' := h.state
  rfl

theorem Shadow.account_of_running (h : Shadow view o w t v t') {r : Runner κ}
    (running : t.state = .running r) : r.tracker.account = t.account := by
  have state := h.state
  rw [running] at state
  generalize t'.state = state' at state
  cases state with
  | running same => exact same.account

/-- Work for other accounts goes past a task. -/
theorem Shadow.untouched (h : Shadow view o w t v t')
    (untouched : w.Untouched view o t.account w') : Shadow view o w' t v t' where
  account := h.account
  number := h.number
  alike := untouched.toAlike.symm.trans h.alike
  now_le := h.now_le.trans untouched.now.le
  state := h.state
  le_wake wake waits := untouched.now.symm.trans_le (h.le_wake wake waits)

/-- Runners alike leave their tasks alike, whether they wait or have ended. -/
theorem shadow_conclude {r r' : Runner κ} (h : w.Abreast view o a v) (same : Runner.Alike o a r r')
    (le_wake : ∀ nonce outcome wake, r.stage = .waiting nonce outcome wake → w.now ≤ wake)
    (number : Nat) :
    Shadow view o (conclude w a number r).1 (conclude w a number r).2 (conclude v a number r').1
      (conclude v a number r').2 := by
  unfold conclude
  rw [← same.stage]
  cases stage : r.stage with
  | waiting nonce outcome wake =>
    exact {
      account := rfl
      number := rfl
      alike := h.toAlike
      now_le := h.now.ge
      state := .running same
      le_wake := by
        intro wake' waits
        simp only [wake?, stage] at waits
        cases waits
        exact le_wake nonce outcome wake stage }
  | finished =>
    -- whatever the notices of the end say, the two worlds stay abreast
    have told := (h.notify (.batchDone r.tracker.account (r.outcomes.countP (·.isAccepted))
      r.outcomes.length) (.batchDone r'.tracker.account (r'.outcomes.countP (·.isAccepted))
      r'.outcomes.length)).notify (.closed r.tracker.account r.tracker.unresolved)
        (.closed r'.tracker.account r'.tracker.unresolved)
    exact {
      account := rfl
      number := rfl
      alike := { told.toAlike with }
      now_le := told.now.ge
      state := by
        rw [same.outcomes]
        exact .ended _
      le_wake := by
        intro wake waits
        cases waits }
  | overflowed =>
    exact {
      account := rfl
      number := rfl
      alike := { h.toAlike with }
      now_le := h.now.ge
      state := .ended _
      le_wake := by
        intro wake waits
        cases waits }

/-- **A step of a task.** A task whose wait ends goes on among others as it does alone. -/
theorem Shadow.resume (separate : client.Separate view) (spares : client.Spares o)
    (h : Shadow view o w t v t') {wake : Nat} (due : t.wake? = some wake) (now : w.now = wake) :
    let alone : World σ κ := { v with now := max v.now wake }
    Shadow view o (t.resume client w).1 (t.resume client w).2 (t'.resume client alone).1
      (t'.resume client alone).2 := by
  intro alone
  have abreast : w.Abreast view o t.account alone :=
    { node := h.alike.node
      aborted := h.alike.aborted
      calls := h.alike.calls
      now := by
        have le := h.now_le
        show w.now = max v.now wake
        omega }
  obtain ⟨r, nonce, outcome, running, stage⟩ := exists_waiting_of_wake? due
  have state := h.state
  rw [running] at state
  generalize running' : t'.state = state' at state
  cases state with
  | running same =>
    rename_i r'
    have stage' : r'.stage = .waiting nonce outcome wake := same.stage ▸ stage
    obtain ⟨world, runner⟩ := Runner.abreast_collect separate spares abreast same nonce outcome
    simp only [SignerTask.resume, running, running', stage, stage']
    rw [h.account, h.number]
    exact shadow_conclude world runner (fun _ _ _ => Runner.le_wake_collect) t.number

/-- A task is launched among others as it is alone. -/
theorem shadow_launch (separate : client.Separate view) (spares : client.Spares o) (mode : Mode)
    {b : Batch κ} (h : w.Abreast view o b.account v) (free : b.account ∉ w.registry.held)
    (free' : b.account ∉ v.registry.held) (number : Nat) :
    let p := launch client mode o w number b
    let q := launch client mode o v number b
    Shadow view o p.1 p.2 q.1 q.2 := by
  intro p q
  -- the node is asked at the same moment, so it reports the same nonce, if any
  obtain ⟨answers, nodes⟩ := separate.nonce (a := b.account) w.now h.node
  have moment : client.nonce v.node w.now b.account = client.nonce v.node v.now b.account := by
    rw [h.now]
  rw [moment] at answers nodes
  cases read : client.nonce w.node w.now b.account with | mk answer node
  cases read' : client.nonce v.node v.now b.account with | mk answer' node'
  rw [read, read'] at answers nodes
  obtain rfl : answer = answer' := answers
  have asked : ({ w with node } : World σ κ).Abreast view o b.account { v with node := node' } :=
    { h with node := nodes }
  cases answer with
  | error cause =>
    let failed : SignerTask κ :=
      { account := b.account, number, state := .ended (.error (.chainUnavailable b.account cause)) }
    have ended : p = ({ w with node }, failed) := by
      simp only [p, launch, Tracker.open_of_unread free read, failed]
    have ended' : q = ({ v with node := node' }, failed) := by
      simp only [q, launch, Tracker.open_of_unread free' read', failed]
    rw [ended, ended']
    exact {
      account := rfl
      number := rfl
      alike := asked.toAlike
      now_le := asked.now.ge
      state := .ended _
      le_wake := by
        intro wake waits
        cases waits }
  | ok nonce =>
    let r : Runner κ :=
      { tracker := { account := b.account, cursor := ⟨nonce⟩ }, mode, options := o
        total := b.calls.length, todo := b.calls }
    have same : Runner.Alike o b.account r r := ⟨rfl, rfl, rfl, rfl, rfl, rfl, rfl, rfl, rfl, rfl⟩
    let claimed (w : World σ κ) (node : σ) : World σ κ :=
      { w with node, registry := ⟨b.account :: w.registry.held⟩ }
    have abreast : (claimed w node).Abreast view o b.account (claimed v node') := { asked with }
    let first := r.proceed client (w.opening b.account nonce node)
    -- both trackers open at that nonce, and both runners begin with all calls to do
    let first' := r.proceed client (v.opening b.account nonce node')
    have started : p = conclude first.1 b.account number first.2 := by
      simp only [p, launch, Tracker.open_of_nonce free read]
      rfl
    have started' : q = conclude first'.1 b.account number first'.2 := by
      simp only [q, launch, Tracker.open_of_nonce free' read']
      rfl
    obtain ⟨world, runner⟩ := Runner.abreast_proceed separate spares (abreast.notify _ _) same
    rw [started, started']
    exact shadow_conclude world runner (fun _ _ _ => Runner.le_wake_proceed) number

/-- A task goes on among others as it does alone while no time passes. -/
theorem Shadow.pursue (separate : client.Separate view) (spares : client.Spares o)
    (h : Shadow view o w t v t') (now : v.now = w.now) :
    Shadow view o (t.pursue client w).1 (t.pursue client w).2 (t'.pursue client v).1
      (t'.pursue client v).2 := by
  induction w, t using pursue.induct client generalizing v t' with
  | case1 w t asleep =>
    rw [pursue_of_none asleep, pursue_of_none (h.state.wake?_eq.symm.trans asleep)]
    exact h
  | case2 w t wake waits due p =>
    rename_i ih
    have waits' : t'.wake? = some wake := h.state.wake?_eq.symm.trans waits
    have due' : wake ≤ v.now := due.trans_eq now.symm
    have resumed := h.resume separate spares waits (le_antisymm (h.le_wake wake waits) due)
    rw [max_eq_left due'] at resumed
    -- neither of the worlds moves on
    obtain ⟨r, nonce, outcome, running, -⟩ := exists_waiting_of_wake? waits
    obtain ⟨r', nonce', outcome', running', -⟩ := exists_waiting_of_wake? waits'
    rw [pursue_of_some waits, if_pos due, pursue_of_some waits', if_pos due']
    exact ih resumed ((steps_resume client v running').now_eq.trans
      (now.trans (steps_resume client w running).now_eq.symm))
  | case3 w t wake waits later =>
    have waits' : t'.wake? = some wake := h.state.wake?_eq.symm.trans waits
    rw [pursue_of_some waits, if_neg later, pursue_of_some waits', if_neg (now ▸ later)]
    exact h

/-- A task is spawned among others as it is alone. -/
theorem shadow_spawn (separate : client.Separate view) (spares : client.Spares o) (mode : Mode)
    {b : Batch κ} (h : w.Abreast view o b.account v) (free : b.account ∉ w.registry.held)
    (free' : b.account ∉ v.registry.held) (number : Nat) :
    let p := spawn client mode o w number b
    let q := spawn client mode o v number b
    Shadow view o p.1 p.2 q.1 q.2 := by
  intro p q
  have launched := shadow_launch separate spares mode h free free' number
  have now : (launch client mode o v number b).1.now = (launch client mode o w number b).1.now := by
    rw [(steps_launch client mode o v number b).now_eq, ← h.now,
      (steps_launch client mode o w number b).now_eq]
  simp only [p, q, spawn]
  split
  · exact launched.pursue separate spares now
  · exact launched

/-! ### Sets of tasks -/

/-- Tasks of several accounts, of which each goes on as it does alone: `alone` says how each of them
ends alone. -/
structure Follows (client : Client σ κ) (view : AccountId → σ → ν) (o : Options) (w : World σ κ)
    (tasks : List (SignerTask κ)) (alone : Nat → World σ κ × List (SignerTask κ)) : Prop where
  distinct : (tasks.map (·.account)).Nodup
  shadow : ∀ i t, tasks[i]? = some t →
    ∃ v t', Shadow view o w t v t' ∧ drive client v [t'] = alone i

variable {tasks : List (SignerTask κ)} {alone : Nat → World σ κ × List (SignerTask κ)}

/-- Time passes to the end of the next wait. -/
theorem Follows.later (h : Follows client view o w tasks alone) {wake : Nat}
    (next : nextWake tasks = some wake) :
    Follows client view o { w with now := max w.now wake } tasks alone ∧ max w.now wake = wake := by
  obtain ⟨mem, least⟩ := List.min?_eq_some_iff.mp next
  have now : max w.now wake = wake := by
    obtain ⟨t, listed, due⟩ := List.mem_filterMap.mp mem
    obtain ⟨i, found⟩ := List.mem_iff_getElem?.mp listed
    obtain ⟨v, t', shadow, -⟩ := h.shadow i t found
    exact max_eq_right (shadow.le_wake wake due)
  refine ⟨{ h with shadow := ?_ }, now⟩
  intro i t found
  obtain ⟨v, t', shadow, ends⟩ := h.shadow i t found
  refine ⟨v, t', ?_, ends⟩
  exact {
    account := shadow.account
    number := shadow.number
    alike := { shadow.alike with }
    now_le := shadow.now_le.trans (Nat.le_max_left ..)
    state := shadow.state
    le_wake := by
      -- no wait ends before the next one does
      intro wake' waits
      have listed := List.mem_filterMap.mpr ⟨t, List.mem_of_getElem? found, waits⟩
      exact now.trans_le (least wake' listed) }

/-- Resuming a task keeps what ties each of the tasks to itself alone. -/
theorem Follows.resume (separate : client.Separate view) (spares : client.Spares o)
    (h : Follows client view o w tasks alone) {wake k : Nat} {t : SignerTask κ}
    (found : tasks[k]? = some t) (waits : t.wake? = some wake) (now : w.now = wake) :
    Follows client view o (t.resume client w).1 (tasks.set k (t.resume client w).2) alone := by
  obtain ⟨v, t', shadow, ends⟩ := h.shadow k t found
  have distinct := h.distinct
  rw [← accounts_set client w found] at distinct
  refine { distinct, shadow := ?_ }
  intro i s placed
  rcases placed_set found placed with ⟨rfl, rfl⟩ | ⟨other, placed⟩
  · -- alone it waits for the same moment, and goes on in the same way
    have waits' : t'.wake? = some wake := shadow.state.wake?_eq.symm.trans waits
    exact ⟨_, _, shadow.resume separate spares waits now, by rw [← drive_single waits', ends]⟩
  · -- the work of the task that is resumed goes past the others
    obtain ⟨u, s', beside, ends⟩ := h.shadow i s placed
    obtain ⟨r, nonce, outcome, running, -⟩ := exists_waiting_of_wake? waits
    have work := steps_resume client w running
    rw [shadow.account_of_running running] at work
    have others := account_ne h.distinct placed found other
    exact ⟨u, s', beside.untouched (.of_steps separate spares others work), ends⟩

theorem Follows.round (separate : client.Separate view) (spares : client.Spares o) {w' : World σ κ}
    {tasks' : List (SignerTask κ)} (round : Round client w tasks w' tasks')
    (h : Follows client view o w tasks alone) : Follows client view o w' tasks' alone := by
  cases round with
  | resume next found due =>
    obtain ⟨later, now⟩ := h.later next
    exact later.resume separate spares found due now

/-! ### Launching -/

theorem untouched_launchAll (separate : client.Separate view) (spares : client.Spares o)
    (mode : Mode) (w : World σ κ) (number : Nat) {batches : List (Batch κ)}
    (others : ∀ b ∈ batches, a ≠ b.account) :
    w.Untouched view o a (launchAll client mode o w number batches).1 := by
  induction batches generalizing w number with
  | nil => exact .refl view o a w
  | cons b rest ih =>
    rw [List.forall_mem_cons] at others
    have work := steps_spawn client mode o w number b
    exact (World.Untouched.of_steps separate spares others.1 work).trans (ih _ _ others.2)

/-- Every task is launched among others as it is alone. -/
theorem shadow_launchAll (separate : client.Separate view) (spares : client.Spares o) (mode : Mode)
    (w : World σ κ) (start : Nat → World σ κ) (number : Nat) {batches : List (Batch κ)}
    (distinct : (batches.map (·.account)).Nodup)
    (abreast : ∀ i b, batches[i]? = some b → w.Abreast view o b.account (start i) ∧
      b.account ∉ w.registry.held ∧ b.account ∉ (start i).registry.held) :
    let p := launchAll client mode o w number batches
    ∀ i b, batches[i]? = some b → ∃ t, p.2[i]? = some t ∧
      Shadow view o p.1 t (spawn client mode o (start i) (number + i) b).1
        (spawn client mode o (start i) (number + i) b).2 := by
  induction batches generalizing w start number with
  | nil => simp
  | cons b rest ih =>
    rw [List.map_cons, List.nodup_cons] at distinct
    obtain ⟨first, free, free'⟩ := abreast 0 b rfl
    have shadow := shadow_spawn separate spares mode first free free' number
    have work := steps_spawn client mode o w number b
    have ne : ∀ b' ∈ rest, b.account ≠ b'.account := by
      intro b' mem same
      exact distinct.1 (same ▸ List.mem_map_of_mem mem)
    -- the other batches find the world as it was for them
    have shadows := ih (spawn client mode o w number b).1 (fun i => start (i + 1)) (number + 1)
      distinct.2 (by
        intro i b' found
        obtain ⟨abreast, free, free'⟩ := abreast (i + 1) b' found
        have untouched := World.Untouched.of_steps separate spares
          (ne b' (List.mem_of_getElem? found)).symm work
        exact ⟨untouched.toAbreast.symm.trans abreast, mt untouched.held.mp free, free'⟩)
    intro p i b' found
    cases i with
    | zero =>
      obtain rfl := Option.some.inj found
      refine ⟨_, rfl, shadow.untouched ?_⟩
      rw [account_spawn]
      exact untouched_launchAll separate spares mode _ _ ne
    | succ i =>
      obtain ⟨t, listed, shadow⟩ := shadows i b' found
      rw [Nat.add_right_comm] at shadow
      exact ⟨t, listed, shadow⟩

end SignerTask

/-! ### Whole runs -/

theorem exists_getElem?_of_map_eq {α β γ : Type} {f : α → γ} {g : β → γ} {xs : List α} {ys : List β}
    (h : xs.map f = ys.map g) {i : Nat} {x : α} (found : xs[i]? = some x) :
    ∃ y, ys[i]? = some y ∧ f x = g y := by
  have mapped : (ys.map g)[i]? = some (f x) := by
    rw [← h, List.getElem?_map, found, Option.map_some]
  obtain ⟨y, listed, same⟩ := Option.map_eq_some_iff.mp ((List.getElem?_map ..).symm.trans mapped)
  exact ⟨y, listed, same.symm⟩

section

variable {client : Client σ κ} {view : AccountId → σ → ν} {o : Options} {w : World σ κ}
  {batches : List (Batch κ)}

/-- **A task among others and alone.** Whatever the order in which the tasks go on, the task of each
batch ends as it does when the batch is run alone, under the same number: with the same result,
after the same calls at the same moments, and not later than all tasks have ended. -/
theorem alone_of_runs (separate : client.Separate view) (spares : client.Spares o)
    (distinct : (batches.map (·.account)).Nodup)
    (free : ∀ b ∈ batches, b.account ∉ w.registry.held) {mode : Mode}
    {q : World σ κ × List (SignerTask κ)}
    (runs : SignerTask.Runs client (launchedOf client w batches mode o) q) {i : Nat} {b : Batch κ}
    (found : batches[i]? = some b) :
    let alone := tasksOf client { w with tasks := w.tasks + i } [b] mode o
    ∃ t, q.2[i]? = some t ∧ alone.2 = [t] ∧ t.account = b.account ∧
      q.1.callsBy b.account = alone.1.callsBy b.account ∧ alone.1.now ≤ q.1.now := by
  intro alone
  let start (i : Nat) : World σ κ := { w with tasks := w.tasks + i + 1 }
  let launched := launchedOf client w batches mode o
  have shadows := SignerTask.shadow_launchAll separate spares mode
    { w with tasks := w.tasks + batches.length } start (w.tasks + 1) distinct fun i b found =>
      ⟨⟨⟨rfl, fun _ => rfl, rfl⟩, rfl⟩, free b (List.mem_of_getElem? found),
        free b (List.mem_of_getElem? found)⟩
  let ends (i : Nat) : World σ κ × List (SignerTask κ) :=
    match batches[i]? with
    | some b => tasksOf client { w with tasks := w.tasks + i } [b] mode o
    | none => (w, [])
  have accounts : launched.2.map (·.account) = batches.map (·.account) :=
    SignerTask.accounts_launchAll ..
  -- at the launch each task is abreast of the one that its batch has alone
  have follows : SignerTask.Follows client view o launched.1 launched.2 ends := by
    refine { distinct := accounts ▸ distinct, shadow := ?_ }
    intro j t listed
    obtain ⟨b, given, -⟩ := exists_getElem?_of_map_eq accounts listed
    obtain ⟨t', listed', shadow⟩ := shadows j b given
    obtain rfl := Option.some.inj (listed.symm.trans listed')
    refine ⟨_, _, shadow, ?_⟩
    simp only [ends, given]
    rw [Nat.add_right_comm]
    rfl
  have after : SignerTask.Follows client view o q.1 q.2 ends :=
    runs.rounds.keep (SignerTask.Follows.round separate spares) follows
  obtain ⟨t, listed, account⟩ :=
    exists_getElem?_of_map_eq (accounts_of_rounds runs.rounds).symm found
  obtain ⟨v, t', shadow, ended⟩ := after.shadow i t listed
  have alone_eq : SignerTask.drive client v [t'] = alone := by
    rw [ended]
    simp only [ends, found]
    rfl
  -- the task has ended among the others, so it has ended alone, and in the same way
  obtain ⟨result, state⟩ := ended_of_runs runs t (List.mem_of_getElem? listed)
  rw [shadow.eq_of_ended state, SignerTask.drive_of_ended client v state] at alone_eq
  rw [← alone_eq]
  refine ⟨t, listed, rfl, account.symm, ?_, shadow.now_le⟩
  rw [account]
  exact shadow.alike.calls

/-- **The order of the rounds does not matter.** Whichever task goes on first of several whose waits
end at the same moment, all tasks end with the same results, after the same calls at the same
moments. -/
theorem eq_tasksOf_of_runs (separate : client.Separate view) (spares : client.Spares o)
    (distinct : (batches.map (·.account)).Nodup)
    (free : ∀ b ∈ batches, b.account ∉ w.registry.held) {mode : Mode}
    {q : World σ κ × List (SignerTask κ)}
    (runs : SignerTask.Runs client (launchedOf client w batches mode o) q) :
    let p := tasksOf client w batches mode o
    q.2 = p.2 ∧ ∀ b ∈ batches, q.1.callsBy b.account = p.1.callsBy b.account := by
  intro p
  have driven := runs_tasksOf client w batches mode o
  have one (i : Nat) (b : Batch κ) (found : batches[i]? = some b) :
      q.2[i]? = p.2[i]? ∧ q.1.callsBy b.account = p.1.callsBy b.account := by
    -- either way the task is the one that the batch has alone
    obtain ⟨t, listed, alone, -, calls, -⟩ :=
      alone_of_runs separate spares distinct free runs found
    obtain ⟨t', listed', alone', -, calls', -⟩ :=
      alone_of_runs separate spares distinct free driven found
    obtain rfl := List.singleton_inj.mp (alone.symm.trans alone')
    exact ⟨listed.trans listed'.symm, calls.trans calls'.symm⟩
  refine ⟨List.ext_getElem? fun i => ?_, ?_⟩
  · cases found : batches[i]? with
    | some b => exact (one i b found).1
    | none =>
      -- there are as many tasks as batches in both runs
      have short := List.getElem?_eq_none_iff.mp found
      have count := congrArg List.length (accounts_of_rounds runs.rounds)
      have count' := congrArg List.length (accounts_tasksOf client w batches mode o)
      rw [List.length_map, List.length_map] at count count'
      rw [List.getElem?_eq_none (count.trans_le short),
        List.getElem?_eq_none (count'.trans_le short)]
  · intro b mem
    obtain ⟨i, found⟩ := List.mem_iff_getElem?.mp mem
    exact (one i b found).2

end

end ShellSale
