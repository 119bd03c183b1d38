import ShellSale.Proofs.Batch.Work

/-!
## Batches of a single call

A batch of one call hands it over, waits for it once and ends, whatever becomes of the call.

* `World.Took` says that nothing is left of a batch but the call that the node has taken.
* `Runner.runBatch_single`: such a batch on an open tracker.
* `tasksOf_single`: such a batch in a task of its own.
-/

namespace ShellSale

variable {σ κ : Type} {client : Client σ κ}

/-- Between two worlds the node has taken a call, in the state `node` that it was in once the nonce
had been read. No account is held that was free before. -/
structure World.Took (client : Client σ κ) (w w' : World σ κ) (node : σ) (s : Sent κ) : Prop where
  registry : w'.registry = w.registry
  node : w'.node = (client.handOver node w.now s.account s.nonce s.call).2
  sent : w'.sent = w.sent ++ [s]

namespace Runner

/-- The runner of a batch of one call, at its only wait. -/
def single (client : Client σ κ) (w : World σ κ) (t : Tracker) (mode : Mode) (o : Options)
    (call : κ) : Runner κ :=
  let s := t.next client w call
  let waited := s.wait client.errors (o.levelOf mode) w.now o.timeout
  { tracker :=
      { t with cursor := ⟨t.cursor.next + 1⟩, submissions := t.submissions ++ [s] }
    mode, options := o, total := 1, todo := []
    stage := .waiting s.nonce waited.1 waited.2 }

/-- A batch of one call goes on to its wait at once. -/
theorem start_single {w : World σ κ} {t : Tracker} (mode : Mode) {o : Options} (call : κ)
    (calm : w.aborted o = false) (below : t.cursor.next < NonceCursor.last) :
    start client w t mode o [call] =
      (w.handOver client t.account t.cursor.next call, single client w t mode o call) := by
  have idle : ¬(mode = .sequential ∧ ([] : List Submission) ≠ []) := by simp
  rw [start, proceed]
  simp only [issue, idle, calm, Tracker.submit?_of_lt below call, ↓reduceIte, Bool.false_eq_true]
  rfl

/-- The last wait of a batch, at its end. -/
theorem collect_last (client : Client σ κ) (w : World σ κ) {r : Runner κ} (nonce : Nat)
    (outcome : Outcome) (todo : r.todo = []) (flying : r.inFlight = []) :
    let p := r.collect client w nonce outcome
    p.2.stage = .finished ∧ p.2.outcomes = r.outcomes ++ [outcome] ∧ p.1.node = w.node ∧
      p.1.sent = w.sent := by
  have heard : (r.heard client w nonce outcome).node = w.node := by
    unfold heard
    split <;> rfl
  have sent : (r.heard client w nonce outcome).sent = w.sent := sent_heard ..
  intro p
  have collected : p = _ := collect_eq ..
  split at collected
  · rw [collected]
    exact ⟨rfl, rfl, heard, (World.sent_notify ..).trans sent⟩
  · have ended : (r.withOutcome client w outcome).proceed client (r.heard client w nonce outcome) =
        (r.heard client w nonce outcome, { r.withOutcome client w outcome with todo := [] }) := by
      rw [proceed, show (r.withOutcome client w outcome).todo = [] from todo, issue]
      exact Prod.ext rfl (awaitNext_of_nil flying)
    rw [collected, ended]
    exact ⟨rfl, rfl, heard, sent⟩

theorem run_last (client : Client σ κ) (w : World σ κ) {r : Runner κ} {nonce wake : Nat}
    {outcome : Outcome} (waits : r.stage = .waiting nonce outcome wake) (todo : r.todo = [])
    (flying : r.inFlight = []) :
    let p := run client w r
    p.2.stage = .finished ∧ p.2.outcomes = r.outcomes ++ [outcome] ∧ p.1.node = w.node ∧
      p.1.sent = w.sent := by
  have last := collect_last client { w with now := max w.now wake } nonce outcome todo flying
  rw [run_of_waiting waits, run_of_ended (by rw [last.1]; simp)]
  exact last

/-- **A batch of one call** ends with the outcome of the wait for it. -/
theorem runBatch_single (client : Client σ κ) {w : World σ κ} {t : Tracker} (mode : Mode)
    {o : Options} (call : κ) (calm : w.aborted o = false)
    (below : t.cursor.next < NonceCursor.last) :
    let p := runBatch client w t mode o [call]
    p.2.stage = .finished ∧
      p.2.outcomes =
        [((t.next client w call).wait client.errors (o.levelOf mode) w.now o.timeout).1] ∧
      p.1.node = (client.handOver w.node w.now t.account t.cursor.next call).2 ∧
      p.1.sent = w.sent ++ [⟨t.account, t.cursor.next, call⟩] := by
  intro p
  have ran : p = run client (w.handOver client t.account t.cursor.next call)
      (single client w t mode o call) := by
    simp only [p, runBatch, start_single mode call calm below]
  rw [ran, ← World.sent_handOver]
  exact run_last client _ rfl rfl rfl

end Runner

/-- A task whose last wait ends gives its outcomes, and its account back. -/
theorem SignerTask.resume_last (client : Client σ κ) (w : World σ κ) {t : SignerTask κ}
    {r : Runner κ} {nonce wake : Nat} {outcome : Outcome} (running : t.state = .running r)
    (waits : r.stage = .waiting nonce outcome wake) (todo : r.todo = [])
    (flying : r.inFlight = []) :
    let p := t.resume client w
    p.2.state = .ended (.ok (r.outcomes ++ [outcome])) ∧
      p.1.registry = w.registry.release r.tracker.account ∧ p.1.node = w.node ∧
      p.1.sent = w.sent := by
  intro p
  obtain ⟨stage, outcomes, node, sent⟩ := Runner.collect_last client w nonce outcome todo flying
  have acts := Runner.acts_collect client w r nonce outcome
  have ended : p = conclude (r.collect client w nonce outcome).1 t.account t.number
      (r.collect client w nonce outcome).2 := by
    simp only [p, resume, running, waits]
  simp only [conclude, stage] at ended
  rw [ended, ← outcomes, ← acts.registry, ← acts.account, ← node, ← sent]
  exact ⟨rfl, rfl, rfl, (World.sent_notify ..).trans (World.sent_notify ..)⟩

/-- **A task of one call** ends with an outcome, whatever becomes of the call, and gives its account
back. -/
theorem tasksOf_single {w : World σ κ} {a : AccountId} {nonce : Nat} {node : σ} (mode : Mode)
    {o : Options} (call : κ) (free : a ∉ w.registry.held)
    (answer : client.nonce w.node w.now a = (.ok nonce, node)) (calm : w.aborted o = false)
    (below : nonce < NonceCursor.last) :
    let p := tasksOf client w [⟨a, [call]⟩] mode o
    (∃ t outcome, p.2 = [t] ∧ t.state = .ended (.ok [outcome])) ∧
      w.Took client p.1 node ⟨a, nonce, call⟩ := by
  intro p
  let t : Tracker := { account := a, cursor := ⟨nonce⟩ }
  let w₁ := World.opening { w with tasks := w.tasks + 1 } a nonce node
  let w₂ := w₁.handOver client a nonce call
  let r := Runner.single client w₁ t mode o call
  let waited := (t.next client w₁ call).wait client.errors (o.levelOf mode) w.now o.timeout
  let task : SignerTask κ := { account := a, number := w.tasks + 1, state := .running r }
  -- the task opens its tracker, hands the call over, and waits for it
  have opened : Tracker.open_ client { w with tasks := w.tasks + 1 } a = (.ok t, w₁) :=
    Tracker.open_of_nonce free answer
  have started : Runner.start client w₁ t mode o [call] = (w₂, r) :=
    Runner.start_single mode call calm below
  have launched : SignerTask.launch client mode o { w with tasks := w.tasks + 1 }
      (w.tasks + 1) ⟨a, [call]⟩ = (w₂, task) := by
    simp only [SignerTask.launch, opened, started]
    rfl
  -- the task is resumed once, and has ended then
  let q := task.resume client { w₂ with now := max w₂.now waited.2 }
  have resumed := SignerTask.resume_last client { w₂ with now := max w₂.now waited.2 }
    (show task.state = .running r from rfl) (show r.stage = .waiting nonce _ waited.2 from rfl)
    rfl rfl
  have waits : task.wake? = some waited.2 := rfl
  have driven : p = (q.1, [q.2]) := by
    show SignerTask.drive client
      (SignerTask.spawn client mode o { w with tasks := w.tasks + 1 } (w.tasks + 1)
        ⟨a, [call]⟩).1
      [(SignerTask.spawn client mode o { w with tasks := w.tasks + 1 } (w.tasks + 1)
        ⟨a, [call]⟩).2] = _
    rw [SignerTask.drive_spawn, launched, SignerTask.drive_single waits,
      SignerTask.drive_of_ended _ _ resumed.1]
  obtain ⟨state, released, kept, told⟩ := resumed
  have opening : w₁.sent = w.sent := World.sent_notify ..
  have sent : w₂.sent = w.sent ++ [⟨a, nonce, call⟩] := by
    rw [← opening]
    exact World.sent_handOver ..
  rw [driven]
  refine ⟨⟨q.2, _, rfl, state⟩, ?_⟩
  exact {
    registry := released.trans (congrArg Registry.mk (List.erase_cons_head ..))
    node := kept
    sent := told.trans sent }

end ShellSale
