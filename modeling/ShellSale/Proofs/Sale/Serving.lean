import ShellSale.Proofs.Sale.Turns

/-!
## Sales that nothing can hinder

A run is cut short from outside by a signal, by a hard error of the pipeline, by an overflow or by a
reading of the chain that fails. Where no signal is given, the node tells every nonce and leaves
room behind it, and every reading has an answer, none of these can happen, whatever becomes of the
calls.

* `Client.Serves` says this of the nonces, `Sale.Served` of a whole sale.
* `Runner.Fits`, `SignerTask.Fits`: while calls are handed over, there stays a nonce for each one
  that is left. Every step keeps this (`Fits.collect`, `Fits.resume`), so no task fails.
* `Phase.Within` says that no step of a phase has more calls than there is room for.
* `Phase.unhindered_of_served` is the main result.
-/

namespace ShellSale

variable {σ κ : Type}

/-- A node that tells the nonce of every account at any moment, and there is always room for some
more nonces behind it. -/
structure Client.Serves (client : Client σ κ) (room : Nat) : Prop where
  nonce : ∀ (node : σ) (now : Nat) (a : AccountId), ∃ n node',
    client.nonce node now a = (.ok n, node') ∧ n + room ≤ NonceCursor.last

/-! ### Batches -/

namespace Runner

/-- There is a nonce for each call that a batch has still to hand over. -/
structure Fits (r : Runner κ) : Prop where
  stage : r.stage ≠ .overflowed
  room : r.tracker.cursor.next + r.todo.length ≤ NonceCursor.last

theorem fits_issue (client : Client σ κ) (w : World σ κ) (r : Runner κ) {calls : List κ}
    (room : r.tracker.cursor.next + calls.length ≤ NonceCursor.last) :
    (issue client w r calls).2.Fits := by
  induction calls generalizing w r with
  | nil => exact { stage := by simp [issue], room := room }
  | cons call rest ih =>
    rw [List.length_cons] at room
    have below : r.tracker.cursor.next < NonceCursor.last := by omega
    unfold issue
    split
    · exact { stage := by simp, room := room }
    · split
      · exact { stage := by simp, room := below.le }
      · -- the call takes one nonce, and one call less is left
        rw [Tracker.submit?_of_lt below call]
        refine ih _ _ ?_
        show r.tracker.cursor.next + 1 + rest.length ≤ NonceCursor.last
        omega

theorem Fits.awaitNext {r : Runner κ} (h : r.Fits) (client : Client σ κ) (w : World σ κ) :
    (r.awaitNext client w).Fits := by
  unfold Runner.awaitNext
  split
  · exact { stage := by simp, room := h.room }
  · exact h

theorem fits_proceed (client : Client σ κ) (w : World σ κ) {r : Runner κ}
    (room : r.tracker.cursor.next + r.todo.length ≤ NonceCursor.last) :
    (r.proceed client w).2.Fits :=
  (fits_issue client w r room).awaitNext client _

theorem Fits.collect {r : Runner κ} (h : r.Fits) (client : Client σ κ) (w : World σ κ) (nonce : Nat)
    (outcome : Outcome) : (r.collect client w nonce outcome).2.Fits := by
  rw [collect_eq]
  split
  · exact { stage := by simp [withOutcome], room := (Nat.le_add_right ..).trans h.room }
  · exact fits_proceed client _ h.room

theorem Fits.run {r : Runner κ} (h : r.Fits) (client : Client σ κ) (w : World σ κ) :
    (Runner.run client w r).2.Fits := by
  induction w, r using Runner.run.induct client with
  | case1 w r nonce outcome wake stage p ih =>
    rw [run_of_waiting stage]
    exact ih (h.collect client _ nonce outcome)
  | case2 w r ended =>
    rw [run_of_ended ended]
    exact h

theorem fits_runBatch (client : Client σ κ) (w : World σ κ) {t : Tracker} (mode : Mode)
    (options : Options) {calls : List κ}
    (room : t.cursor.next + calls.length ≤ NonceCursor.last) :
    (runBatch client w t mode options calls).2.Fits := by
  have started : (start client w t mode options calls).2.Fits := fits_proceed client w room
  exact started.run client _

end Runner

/-! ### Tasks -/

namespace SignerTask

/-- A task that does not fail: there are nonces enough while it is under way, and it ends with
outcomes. -/
def Fits (t : SignerTask κ) : Prop :=
  match t.state with
  | .running r => r.Fits
  | .ended result => ∃ outcomes, result = .ok outcomes

theorem fits_conclude (w : World σ κ) (account : AccountId) (number : Nat) {r : Runner κ}
    (h : r.Fits) : (conclude w account number r).2.Fits := by
  unfold conclude
  split
  · exact h
  · exact ⟨r.outcomes, rfl⟩
  · rename_i overflowed
    exact absurd overflowed h.stage

theorem Fits.resume {t : SignerTask κ} (h : t.Fits) (client : Client σ κ) (w : World σ κ) :
    (t.resume client w).2.Fits := by
  unfold SignerTask.resume
  split
  · rename_i r running
    rw [Fits, running] at h
    split
    · exact fits_conclude _ _ _ (h.collect client w _ _)
    · rw [Fits, running]
      exact h
  · exact h

variable {client : Client σ κ} {room : Nat} (serves : client.Serves room) (mode : Mode)
  (options : Options)

include serves

theorem fits_launch {w : World σ κ} (number : Nat) {b : Batch κ}
    (free : b.account ∉ w.registry.held) (le : b.calls.length ≤ room) :
    (launch client mode options w number b).2.Fits := by
  obtain ⟨n, node, answer, enough⟩ := serves.nonce w.node w.now b.account
  simp only [launch, Tracker.open_of_nonce free answer, Runner.start]
  refine fits_conclude _ _ _ (Runner.fits_proceed client _ ?_)
  show n + b.calls.length ≤ NonceCursor.last
  omega

theorem fits_spawn {w : World σ κ} (number : Nat) {b : Batch κ}
    (free : b.account ∉ w.registry.held) (le : b.calls.length ≤ room) :
    (spawn client mode options w number b).2.Fits :=
  spawn_induction (P := fun _ t => t.Fits) (fits_launch serves mode options number free le)
    fun w' _ _ _ _ fits => fits.resume client w'

/-- Tasks of different accounts that are all free do not fail when they are launched. -/
theorem fits_launchAll {w : World σ κ} (number : Nat) {batches : List (Batch κ)}
    (distinct : (batches.map (·.account)).Nodup) (free : ∀ b ∈ batches, b.account ∉ w.registry.held)
    (le : ∀ b ∈ batches, b.calls.length ≤ room) :
    ∀ t ∈ (launchAll client mode options w number batches).2, t.Fits := by
  induction batches generalizing w number with
  | nil => simp [launchAll]
  | cons b rest ih =>
    rw [List.map_cons, List.nodup_cons] at distinct
    rw [List.forall_mem_cons] at free le
    intro t mem
    rcases List.mem_cons.mp mem with rfl | mem
    · exact fits_spawn serves mode options number free.1 le.1
    · refine ih (number + 1) distinct.2 ?_ le.2 t mem
      intro b' later held
      rcases mem_held_spawn client mode options w number b held with same | held
      · exact distinct.1 (same ▸ List.mem_map_of_mem later)
      · exact free.2 b' later held

omit serves in
theorem fits_rounds {p q : World σ κ × List (SignerTask κ)} (rounds : Rounds client p q)
    (h : ∀ t ∈ p.2, t.Fits) : ∀ t ∈ q.2, t.Fits := by
  refine rounds.keep (P := fun _ tasks => ∀ t ∈ tasks, t.Fits) ?_ h
  rintro w tasks w' tasks' ⟨next, found, due⟩ fits t' mem
  rcases List.mem_or_eq_of_mem_set mem with mem | rfl
  · exact fits t' mem
  · exact (fits _ (List.mem_of_getElem? found)).resume client _

end SignerTask

/-- **Batches on a node that serves** all end with outcomes, whatever the order of the rounds. -/
theorem exists_outcomes_of_runs {client : Client σ κ} {room : Nat} (serves : client.Serves room)
    {w : World σ κ} {batches : List (Batch κ)} {mode : Mode} {options : Options}
    {q : World σ κ × List (SignerTask κ)} (distinct : (batches.map (·.account)).Nodup)
    (free : ∀ b ∈ batches, b.account ∉ w.registry.held) (le : ∀ b ∈ batches, b.calls.length ≤ room)
    (runs : SignerTask.Runs client (launchedOf client w batches mode options) q) :
    ∀ t ∈ q.2, ∃ outcomes, t.state = .ended (.ok outcomes) := by
  intro t mem
  have fits := SignerTask.fits_rounds runs.rounds
    (SignerTask.fits_launchAll serves mode options _ distinct free le) t mem
  obtain ⟨result, state⟩ := ended_of_runs runs t mem
  rw [SignerTask.Fits, state] at fits
  obtain ⟨outcomes, rfl⟩ := fits
  exact ⟨outcomes, state⟩

/-! ### Steps -/

/-- **A sale that nothing can hinder**: no signal is given to it, the node tells every nonce, with
room behind it, and every reading of the chain has an answer. -/
structure Sale.Served (sale : Sale σ) (room : Nat) : Prop where
  unsignalled : sale.options.abort = none
  distinct : Function.Injective sale.keyring.account
  nonces : sale.client.Serves room
  collection : ∀ node now, ∃ x, ChainState.collection sale.storage node now = .ok x
  era : ∀ node now, ∃ x, ChainState.era sale.storage node now = .ok x
  owned : ∀ node now a collection, ∃ x,
    ChainState.owned sale.storage node now a collection = .ok x
  food : ∀ node now era, ∃ x, ChainState.food sale.storage node now era = .ok x

namespace Sale

variable {sale : Sale σ} {room : Nat} {w : World σ Call}

theorem Served.unraised (h : sale.Served room) (w : World σ Call) :
    w.aborted sale.options = false := by
  rw [World.aborted, h.unsignalled]

/-- A step of the users succeeds. -/
theorem Served.exists_users_eq (h : sale.Served room) (free : w.registry.held = []) (step : String)
    {calls : List (AccountName × Call)} (le : calls.length ≤ room) :
    ∃ outcomes, (sale.users w step .pipelined calls).1 = .ok outcomes := by
  refine (sale.users_eq_ok_iff w step .pipelined calls).mpr ?_
  refine exists_outcomes_of_runs h.nonces (nodup_batches h.distinct calls) ?_ ?_ (runs_tasksOf ..)
  · intro b _ held
    have taken : b.account ∈ w.registry.held := held
    rw [free] at taken
    cases taken
  · intro b mem
    obtain ⟨name, -, rfl⟩ := mem_batches_iff.mp mem
    refine le.trans' ?_
    rw [ownOf, List.length_map]
    exact List.length_filter_le ..

/-- An administrative step is not hindered, though its calls may not be accepted. -/
theorem Served.unhindered_admin (h : sale.Served room) (free : w.registry.held = [])
    (step : String) (signer : AccountId) (mode : Mode) {calls : List Call}
    (le : calls.length ≤ room) : sale.Unhindered (sale.admin w step signer mode calls) := by
  obtain ⟨n, node, answer, enough⟩ := h.nonces.nonce w.node w.now signer
  let said := say w .info ("🔧 " ++ step ++ "...")
  have unheld : signer ∉ said.registry.held := by
    rw [show said.registry.held = [] from free]
    exact List.not_mem_nil
  let t : Tracker := { account := signer, cursor := ⟨n⟩ }
  have opened : Tracker.open_ sale.client said signer = (.ok t, said.opening signer n node) :=
    Tracker.open_of_nonce unheld answer
  have fits := Runner.fits_runBatch sale.client (said.opening signer n node) (t := t) mode
    (strict sale.options) ((Nat.add_le_add_left le n).trans enough)
  have batch : sale.adminBatch w step signer mode calls = _ := adminBatch_of_open opened
  generalize runBatch sale.client (said.opening signer n node) t mode (strict sale.options) calls =
    p at fits batch
  -- it ends with its outcomes, and at worst these are not enough
  rw [admin_of_ok batch, if_neg fits.stage]
  have unraised := h.unraised
  split
  · rename_i e short
    -- a shortfall is no failure of the pipeline and none of the chain state
    have kind : (∀ e', e ≠ .pipeline e') ∧ ∀ e', e ≠ .chainState e' := by
      unfold shortfall? at short
      split at short
      · cases short
        simp
      · split at short
        · cases short
          simp
        · cases short
    exact { unraised := unraised _, fine := by simpa using kind.1, fits := by simp,
            reads := by simpa using kind.2 }
  · exact { unraised := unraised _, fine := by simp, fits := by simp, reads := by simp }

end Sale

namespace Phase

/-! ### Phases -/

/-- No step of a phase has more than `room` calls, and the phase does not end with an error that
hinders it. -/
def Within (room : Nat) : Phase → Prop
  | done => True
  | fail e => e = .noCollection
  | overflow _ => False
  | admin _ _ _ calls next => calls.length ≤ room ∧ next.Within room
  | users _ calls next => calls.length ≤ room ∧ next.Within room
  | say _ next => next.Within room
  | askCollection next => ∀ x, (next x).Within room
  | askEra next => ∀ x, (next x).Within room
  | askOwned _ _ next => ∀ x, (next x).Within room
  | askFood _ next => ∀ x, (next x).Within room

variable {sale : Sale σ} {room : Nat}

/-- **A sale that nothing can hinder** runs its phases unhindered. -/
theorem unhindered_of_served (served : sale.Served room) {w : World σ Call}
    (free : w.registry.held = []) {p : Phase} (within : p.Within room) :
    sale.Unhindered (p.run sale w) := by
  have unraised := served.unraised
  induction p generalizing w with
  | done =>
    exact { unraised := unraised w, fine := by simp [run], fits := by simp [run],
            reads := by simp [run] }
  | fail e =>
    rw [Within] at within
    subst within
    exact { unraised := unraised w, fine := by simp [run], fits := by simp [run],
            reads := by simp [run] }
  | overflow o => exact within.elim
  | admin step signer mode calls next ih =>
    have unhindered := served.unhindered_admin free step (sale.keyring.account signer) mode within.1
    have after := sale.held_admin w step (sale.keyring.account signer) mode calls
    rw [run_admin]
    cases answer : (sale.admin w step (sale.keyring.account signer) mode calls).1 with
    | ok => exact ih (by rw [after, free]) within.2
    | error halt =>
      rw [show sale.admin w step (sale.keyring.account signer) mode calls = (.error halt, _) from
        Prod.ext answer rfl] at unhindered
      exact unhindered
  | users step calls next ih =>
    obtain ⟨outcomes, ok⟩ := served.exists_users_eq free step within.1
    have after := sale.held_users w step .pipelined calls
    rw [free] at after
    rw [run_users, ok]
    exact ih after.eq_nil within.2
  | say text next ih => exact ih (w := Sale.say w .info text) free within
  | askCollection next ih =>
    obtain ⟨x, answer⟩ := served.collection w.node w.now
    rw [run, answer]
    exact ih x free (within x)
  | askEra next ih =>
    obtain ⟨x, answer⟩ := served.era w.node w.now
    rw [run, answer]
    exact ih x free (within x)
  | askOwned owner collection next ih =>
    obtain ⟨x, answer⟩ := served.owned w.node w.now (sale.keyring.account owner) collection
    rw [run, answer]
    exact ih x free (within x)
  | askFood era next ih =>
    obtain ⟨x, answer⟩ := served.food w.node w.now era
    rw [run, answer]
    exact ih x free (within x)

/-! ### Phases without too many calls -/

theorem within_reward (pos : 0 < room) (reductions : List Nat) :
    (reward reductions).Within room := by
  intro era counts
  simp only [Within]
  split
  · trivial
  · exact ⟨pos, trivial⟩

theorem within_feed {collection number : Nat} {next : Phase} {rounds : List (List Feeding)}
    (within : next.Within room) (le : ∀ round ∈ rounds, round.length ≤ room) :
    (feed collection next number rounds).Within room := by
  induction rounds generalizing number with
  | nil => exact within
  | cons round rest ih =>
    rw [List.forall_mem_cons] at le
    exact ⟨(List.length_map _).trans_le le.1, ih le.2⟩

/-- An incubation is within the room if the plan names owners, and neither these nor any of its
rounds have too many shells. -/
theorem within_incubation {p : IncubationPlan} (pos : 0 < room) (named : p.holdings ≠ [])
    (starts : (p.holdings.flatMap (·.nfts)).length ≤ room)
    (rounds : ∀ round ∈ p.rounds, round.length ≤ room) : (incubation p).Within room := by
  have within : ∀ collection, (incubate p collection).Within room := by
    intro collection
    have some : ¬p.holdings.isEmpty = true := by simpa using named
    rw [incubate, decree, withShells, if_neg some]
    refine ⟨pos, ?_, within_feed (within_reward pos _) rounds⟩
    simpa [List.length_flatMap] using starts
  unfold incubation
  split
  · exact within _
  · rintro (_ | collection)
    · rfl
    · exact within collection

theorem within_whitelistPurchase (k : Keyring) {p : SalePlan} (pos : 0 < room)
    (le : p.whitelistPurchases.length ≤ room) : (whitelistPurchase k p).Within room :=
  ⟨pos, (List.length_map _).trans_le le, trivial⟩

end Phase

/-! ### Decrees -/

/-- A decree is accepted if all that the node reports on the calls of its account is that they are
final and were not reverted, and it does so at once. -/
theorem Sale.Decree.isAccepted {sale : Sale σ} {w w' : World σ Call} {signer : AccountId}
    {call : Call} {outcome : Outcome} {nonce : Nat} {s : Submission}
    (h : sale.Decree w w' signer call outcome nonce s)
    (final : ∀ node now nonce, ∃ block events,
      (sale.client.handOver node now signer nonce call).1.feed =
        [(0, .event (.finalized block events))] ∧ sale.client.errors.reason? events = none) :
    outcome.isAccepted = true := by
  obtain ⟨u, -, -, fed⟩ := h.handed.fed
  obtain ⟨block, events, feed, fine⟩ := final u.node u.now nonce
  rw [h.outcome_eq]
  exact Submission.isAccepted_wait_of_final _ h.handed.fresh (fed.trans feed) fine _ (Nat.zero_le _)

end ShellSale
