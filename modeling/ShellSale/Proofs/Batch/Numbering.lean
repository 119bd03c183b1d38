import ShellSale.Proofs.Batch.Work
import ShellSale.Proofs.Pipeline.Counting

/-!
## The nonces of batches on a node that counts

A task reads the nonce of its account when it is launched, and issues the nonces from there on one
after the other. As time does not pass while tasks are launched, and the node does not count the
calls of other accounts, all calls of an account in a set of batches go by the nonces from what the
node had counted when the set was started.

* `SignerTask.Numbered` is the invariant of tasks under way: a task that goes on keeps it
  (`Numbered.resume`), so it holds at any point of any order of rounds (`Numbered.rounds`).
* `exists_series_of_rounds`: the nonces of a set of batches.
-/

namespace ShellSale

variable {σ κ : Type} {client : Client σ κ} {start : AccountId → Nat} {receipts : σ → List Receipt}

/-- A new tracker stands at the nonce that the node reports. -/
theorem Tracker.nonce_of_open {w w' : World σ κ} {a : AccountId} {t : Tracker}
    (h : Tracker.open_ client w a = (.ok t, w')) :
    (client.nonce w.node w.now a).1 = .ok t.cursor.next := by
  by_cases held : a ∈ w.registry.held
  · rw [open_of_mem client held] at h
    cases h
  · rw [open_of_not_mem client held] at h
    split at h
    · cases h
    · rename_i nonce node answer
      cases h
      rw [answer]

namespace SignerTask

/-! ### One task -/

theorem sent_conclude (w : World σ κ) (account : AccountId) (number : Nat) (r : Runner κ) :
    (conclude w account number r).1.sent = w.sent := by
  unfold conclude
  split
  · rfl
  · exact (World.sent_notify _ _).trans (World.sent_notify _ _)
  · rfl

theorem running_conclude {w : World σ κ} {account : AccountId} {number : Nat} {r r' : Runner κ}
    (h : (conclude w account number r).2.state = .running r') : r' = r := by
  unfold conclude at h
  split at h
  · cases h
    rfl
  · cases h
  · cases h

/-- A task that is launched hands over calls from the nonce on at which its tracker is opened. -/
theorem exists_series_launch (client : Client σ κ) (mode : Mode) (options : Options)
    (w : World σ κ) (number : Nat) (b : Batch κ) {first : Nat}
    (starts : ∀ t w', Tracker.open_ client w b.account = (.ok t, w') → t.cursor.next = first) :
    let p := launch client mode options w number b
    ∃ calls, p.1.sentBy b.account = w.sentBy b.account ++ Sent.series b.account first calls ∧
      ∀ r, p.2.state = .running r →
        r.tracker.account = b.account ∧ r.tracker.cursor.next = first + calls.length := by
  intro p
  have opened := Tracker.sent_open client w b.account
  cases result : Tracker.open_ client w b.account with
  | mk answer w' =>
    rw [result] at opened
    cases answer with
    | error e =>
      have failed : p = (w', { account := b.account, number, state := .ended (.error e) }) := by
        simp only [p, launch, result]
      rw [failed]
      refine ⟨[], ?_, ?_⟩
      · exact (World.sentBy_of_sent opened _).trans (List.append_nil _).symm
      · intro r running
        cases running
    | ok t =>
      -- the cursor moves with the calls handed over
      obtain ⟨-, -, account, -, -⟩ := Tracker.open_eq_ok result
      have cursor : t.cursor.next = first := starts t w' result
      let r : Runner κ :=
        { tracker := t, mode, options, total := b.calls.length, todo := b.calls }
      have begun :
          p = conclude (r.proceed client w').1 b.account number (r.proceed client w').2 := by
        simp only [p, launch, result]
        rfl
      obtain ⟨new, issued⟩ := Runner.exists_issued client w' r b.calls
      have tracker : (r.proceed client w').2.tracker = (r.issue client w' b.calls).2.tracker :=
        Runner.tracker_awaitNext ..
      refine ⟨b.calls.take new.length, ?_, ?_⟩
      · have sentBy := issued.sentBy
        rw [show r.tracker.account = b.account from account,
          show r.tracker.cursor.next = first from cursor, World.sentBy_of_sent opened] at sentBy
        rw [begun, World.sentBy_of_sent (sent_conclude ..)]
        exact sentBy
      · intro r' running
        rw [begun] at running
        rw [running_conclude running, tracker, issued.account, issued.cursor,
          List.length_take_of_le issued.length_le]
        exact ⟨account, congrArg (· + new.length) cursor⟩

/-- A task that is resumed hands over calls from its cursor on. -/
theorem exists_series_resume (client : Client σ κ) (w : World σ κ) {t : SignerTask κ}
    {r : Runner κ} {nonce wake : Nat} {outcome : Outcome} (running : t.state = .running r)
    (stage : r.stage = .waiting nonce outcome wake) :
    let p := t.resume client w
    ∃ calls, p.1.sentBy r.tracker.account =
        w.sentBy r.tracker.account ++ Sent.series r.tracker.account r.tracker.cursor.next calls ∧
      ∀ r', p.2.state = .running r' → r'.tracker.account = r.tracker.account ∧
        r'.tracker.cursor.next = r.tracker.cursor.next + calls.length := by
  intro p
  have collected : p = conclude (r.collect client w nonce outcome).1 t.account t.number
      (r.collect client w nonce outcome).2 := by
    simp only [p, resume, running, stage]
  obtain ⟨k, le, -, cursor, -, sentBy⟩ := Runner.exists_handed_collect client w r nonce outcome
  refine ⟨r.todo.take k, ?_, ?_⟩
  · rw [collected, World.sentBy_of_sent (sent_conclude ..)]
    exact sentBy
  · intro r' running'
    rw [collected] at running'
    rw [running_conclude running', List.length_take_of_le le]
    exact ⟨(Runner.acts_collect client w r nonce outcome).account, cursor⟩

/-- A task that is spawned hands over calls from the nonce on at which its tracker is opened. -/
theorem exists_series_spawn (client : Client σ κ) (mode : Mode) (options : Options)
    (w : World σ κ) (number : Nat) (b : Batch κ) {first : Nat}
    (starts : ∀ t w', Tracker.open_ client w b.account = (.ok t, w') → t.cursor.next = first) :
    let p := spawn client mode options w number b
    ∃ calls, p.1.sentBy b.account = w.sentBy b.account ++ Sent.series b.account first calls ∧
      ∀ r, p.2.state = .running r →
        r.tracker.account = b.account ∧ r.tracker.cursor.next = first + calls.length := by
  let P (w' : World σ κ) (t : SignerTask κ) : Prop :=
    ∃ calls, w'.sentBy b.account = w.sentBy b.account ++ Sent.series b.account first calls ∧
      ∀ r, t.state = .running r →
        r.tracker.account = b.account ∧ r.tracker.cursor.next = first + calls.length
  refine spawn_induction (P := P) (exists_series_launch client mode options w number b starts) ?_
  rintro w' t wake due - ⟨calls, sentBy, next⟩
  obtain ⟨r, nonce, outcome, running, stage⟩ := exists_waiting_of_wake? due
  obtain ⟨account, cursor⟩ := next r running
  obtain ⟨more, sentBy', next'⟩ := exists_series_resume client w' running stage
  rw [account, cursor, sentBy, List.append_assoc, ← Sent.series_append] at sentBy'
  refine ⟨calls ++ more, sentBy', ?_⟩
  intro r' running'
  obtain ⟨account', cursor'⟩ := next' r' running'
  rw [cursor', cursor, List.length_append, Nat.add_assoc]
  exact ⟨account'.trans account, rfl⟩

/-! ### Sets of tasks -/

/-- The calls of an account since it had handed over `before` go by the nonces from `first` on, and
the task of the account, if it is under way, goes on behind them. -/
structure Numbered (a : AccountId) (before : List (Sent κ)) (first : Nat) (w : World σ κ)
    (tasks : List (SignerTask κ)) : Prop where
  distinct : (tasks.map (·.account)).Nodup
  own : ∀ (i : Nat) t r, tasks[i]? = some t → t.state = .running r → r.tracker.account = t.account
  series : ∃ calls, w.sentBy a = before ++ Sent.series a first calls ∧
    ∀ (i : Nat) t r, tasks[i]? = some t → t.account = a → t.state = .running r →
      r.tracker.cursor.next = first + calls.length

section

variable {a : AccountId} {before : List (Sent κ)} {first : Nat} {w : World σ κ}
  {tasks : List (SignerTask κ)}

/-- Resuming a task keeps the numbers of every account. -/
theorem Numbered.resume (h : Numbered a before first w tasks) {wake k : Nat} {t : SignerTask κ}
    (found : tasks[k]? = some t) (waits : t.wake? = some wake) :
    Numbered a before first (t.resume client w).1 (tasks.set k (t.resume client w).2) := by
  obtain ⟨r, nonce, outcome, running, stage⟩ := exists_waiting_of_wake? waits
  have own := h.own k t r found running
  have account : (t.resume client w).2.account = t.account := account_resume client w t
  obtain ⟨calls, sentBy, cursors⟩ := h.series
  obtain ⟨more, sentBy', next⟩ := exists_series_resume client w running stage
  have distinct := h.distinct
  rw [← accounts_set client w found] at distinct
  refine { distinct, own := ?_, series := ?_ }
  · -- a task that stands where it stood keeps its account, and so does the one that was resumed
    intro i s r' listed running'
    rcases placed_set found listed with ⟨-, rfl⟩ | ⟨-, listed⟩
    · exact (next r' running').1.trans (own.trans account.symm)
    · exact h.own i s r' listed running'
  · by_cases same : t.account = a
    · -- its calls go on where those before ended, and no other task is of the account
      have mine : r.tracker.account = a := own.trans same
      have cursor := cursors k t r found same running
      rw [mine, cursor, sentBy, List.append_assoc, ← Sent.series_append] at sentBy'
      refine ⟨calls ++ more, sentBy', ?_⟩
      intro i s r' listed account' running'
      rcases placed_set found listed with ⟨-, rfl⟩ | ⟨other, listed⟩
      · rw [(next r' running').2, cursor, List.length_append, Nat.add_assoc]
      · exact absurd (account'.trans same.symm) (account_ne h.distinct listed found other)
    · -- the work is for another account, so the calls are those there were
      have others : a ≠ r.tracker.account := fun eq => same (own.symm.trans eq.symm)
      obtain ⟨holder, held, step⟩ := step_resume client w waits
      rw [holder?, running] at held
      obtain rfl := Option.some.inj held
      refine ⟨calls, (step.grows.sentBy_of_ne others).trans sentBy, ?_⟩
      intro i s r' listed account' running'
      rcases placed_set found listed with ⟨-, rfl⟩ | ⟨-, listed⟩
      · exact absurd (account.symm.trans account') same
      · exact cursors i s r' listed account' running'

/-- A round keeps the numbers of every account. -/
theorem Numbered.round {w' : World σ κ} {tasks' : List (SignerTask κ)}
    (round : Round client w tasks w' tasks') (h : Numbered a before first w tasks) :
    Numbered a before first w' tasks' := by
  cases round with
  | @resume wake k t next found due =>
    have later : Numbered a before first { w with now := max w.now wake } tasks := { h with }
    exact later.resume found due

/-- **Rounds of tasks** keep the numbers of every account. -/
theorem Numbered.rounds {p q : World σ κ × List (SignerTask κ)}
    (h : Numbered a before first p.1 p.2) (rounds : Rounds client p q) :
    Numbered a before first q.1 q.2 :=
  rounds.keep Numbered.round h

end

theorem spared_launchAll (counts : client.Counts start receipts) (mode : Mode) (options : Options)
    (w : World σ κ) (number : Nat) {batches : List (Batch κ)} {a : AccountId}
    (others : a ∉ batches.map (·.account)) :
    World.Spared receipts a w (launchAll client mode options w number batches).1 := by
  induction batches generalizing w number with
  | nil => exact .refl receipts a w
  | cons b rest ih =>
    rw [List.map_cons, List.mem_cons, not_or] at others
    have first := counts.spared (Ne.symm others.1) (steps_spawn client mode options w number b)
    exact first.trans (ih _ _ others.2)

/-- A task of the account in front of tasks of others. -/
theorem Numbered.cons_self {a : AccountId} {before : List (Sent κ)} {first first' : Nat}
    {w : World σ κ} {t : SignerTask κ} {rest : List (SignerTask κ)}
    (h : Numbered a (w.sentBy a) first' w rest) (account : t.account = a)
    (others : a ∉ rest.map (·.account)) {calls : List κ}
    (sentBy : w.sentBy a = before ++ Sent.series a first calls)
    (next : ∀ r, t.state = .running r →
      r.tracker.account = a ∧ r.tracker.cursor.next = first + calls.length) :
    Numbered a before first w (t :: rest) := by
  refine { distinct := ?_, own := ?_, series := ⟨calls, sentBy, ?_⟩ }
  · rw [List.map_cons, List.nodup_cons, account]
    exact ⟨others, h.distinct⟩
  · intro i s r listed running
    cases i with
    | zero =>
      obtain rfl := Option.some.inj listed
      exact (next r running).1.trans account.symm
    | succ i => exact h.own i s r listed running
  · intro i s r listed same running
    cases i with
    | zero =>
      obtain rfl := Option.some.inj listed
      exact (next r running).2
    | succ i =>
      have mem : s.account ∈ rest.map (·.account) :=
        List.mem_map_of_mem (List.mem_of_getElem? listed)
      rw [same] at mem
      exact absurd mem others

/-- A task of another account in front. -/
theorem Numbered.cons_other {a : AccountId} {before : List (Sent κ)} {first : Nat}
    {w : World σ κ} {t : SignerTask κ} {rest : List (SignerTask κ)}
    (h : Numbered a before first w rest) (ne : t.account ≠ a)
    (others : t.account ∉ rest.map (·.account))
    (own : ∀ r, t.state = .running r → r.tracker.account = t.account) :
    Numbered a before first w (t :: rest) := by
  obtain ⟨calls, sentBy, cursors⟩ := h.series
  refine { distinct := ?_, own := ?_, series := ⟨calls, sentBy, ?_⟩ }
  · rw [List.map_cons, List.nodup_cons]
    exact ⟨others, h.distinct⟩
  · intro i s r listed running
    cases i with
    | zero =>
      obtain rfl := Option.some.inj listed
      exact own r running
    | succ i => exact h.own i s r listed running
  · intro i s r listed same running
    cases i with
    | zero =>
      obtain rfl := Option.some.inj listed
      exact absurd same ne
    | succ i => exact cursors i s r listed same running

/-- Tasks that are launched hand over calls from the nonces on that the node reports. -/
theorem numbered_launchAll (counts : client.Counts start receipts) (mode : Mode)
    (options : Options) (w : World σ κ) (number : Nat) {batches : List (Batch κ)}
    (distinct : (batches.map (·.account)).Nodup) (a : AccountId) :
    Numbered a (w.sentBy a) (start a + Receipt.finals a w.now (receipts w.node))
      (launchAll client mode options w number batches).1
      (launchAll client mode options w number batches).2 := by
  induction batches generalizing w number a with
  | nil =>
    exact {
      distinct := List.nodup_nil
      own := by simp [launchAll]
      series := ⟨[], (List.append_nil _).symm, by simp [launchAll]⟩ }
  | cons b rest ih =>
    rw [List.map_cons, List.nodup_cons] at distinct
    obtain ⟨calls, sentBy, next⟩ := exists_series_spawn client mode options w number b
      fun _ _ opened => counts.nonce_eq (Tracker.nonce_of_open opened)
    let w₁ := (spawn client mode options w number b).1
    let t := (spawn client mode options w number b).2
    have launched : t.account = b.account := account_spawn ..
    have others : t.account ∉
        (launchAll client mode options w₁ (number + 1) rest).2.map (·.account) := by
      rw [accounts_launchAll, launched]
      exact distinct.1
    have later := ih w₁ (number + 1) distinct.2 a
    by_cases same : b.account = a
    · subst same
      -- no later batch is of the account, so its calls are those of this task
      have spared := spared_launchAll counts mode options w₁ (number + 1) distinct.1
      rw [← spared.sentBy] at later
      exact later.cons_self launched (launched ▸ others) (spared.sentBy.trans sentBy) next
    · have spared := counts.spared same (steps_spawn client mode options w number b)
      rw [spared.sentBy, spared.finals_eq] at later
      have own : ∀ r, t.state = .running r → r.tracker.account = t.account := by
        intro r running
        exact (next r running).1.trans launched.symm
      exact later.cons_other (launched.trans_ne same) others own

end SignerTask

/-- **The nonces of a set of batches**: all calls of an account go by the nonces from what the node
had counted when the set was started, whatever the order in which its tasks go on. -/
theorem exists_series_of_rounds (counts : client.Counts start receipts) {w : World σ κ}
    {batches : List (Batch κ)} (distinct : (batches.map (·.account)).Nodup) {mode : Mode}
    {options : Options} {q : World σ κ × List (SignerTask κ)}
    (rounds : SignerTask.Rounds client (launchedOf client w batches mode options) q)
    (a : AccountId) :
    ∃ calls, q.1.sentBy a = w.sentBy a ++
      Sent.series a (start a + Receipt.finals a w.now (receipts w.node)) calls := by
  have launched := SignerTask.numbered_launchAll counts mode options
    { w with tasks := w.tasks + batches.length } (w.tasks + 1) distinct a
  obtain ⟨calls, sentBy, -⟩ := (launched.rounds rounds).series
  exact ⟨calls, sentBy⟩

end ShellSale
