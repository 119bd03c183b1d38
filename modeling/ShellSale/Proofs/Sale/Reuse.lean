import ShellSale.Proofs.Batch.Numbering
import ShellSale.Proofs.Pipeline.Following
import ShellSale.Proofs.Sale.Accounts
import ShellSale.Proofs.Sale.Effects

/-!
## When a phase uses nonces again

Every step of a phase opens its trackers anew, and so reads the nonces from the chain. A node that
counts finalized calls then reports the nonce of a call that is not final yet as free. A phase goes
on from a step of the users also if calls of it timed out, so a later step may hand over a call
under a nonce that is still taken.

* `Visit.exists_handedBy_eq`: the nonces of a step.
* `Phase.keepsNonces_iff`: a run leaves the nonces of earlier calls alone, those of invalid and
  dropped calls excepted, exactly if the nonces that each step uses are free.
* `Phase.nodup_nonces_iff`: the nonces of an account in a run of a phase are all different exactly
  if each step that hands over a call of it finds all earlier ones final.
* `Phase.nonces_eq_range'_of_final`: then they are consecutive.
-/

namespace ShellSale

variable {σ : Type}

/-! ### The nonces of a step -/

section

variable {sale : Sale σ} {start : AccountId → Nat} {receipts : σ → List Receipt}

/-- An administrative step hands over calls of its signer from the nonce on that the node reports
when it begins. -/
theorem Sale.exists_series_admin (counts : sale.client.Counts start receipts) (w : World σ Call)
    (step : String) (signer : AccountId) (mode : Mode) (calls : List Call) (a : AccountId) :
    ∃ done, (sale.admin w step signer mode calls).2.sentBy a = w.sentBy a ++
      Sent.series a (start a + Receipt.finals a w.now (receipts w.node)) done := by
  let w₀ := say w .info ("🔧 " ++ step ++ "...")
  have said : w₀.sent = w.sent := World.sent_line w _
  cases batch : sale.adminBatch w step signer mode calls with
  | error e =>
    -- the tracker could not be opened, so there are no calls
    have opened := Tracker.sent_open sale.client w₀ signer
    unfold adminBatch at batch
    split at batch
    · rename_i e₁ w₁ refused
      rw [refused] at opened
      refine ⟨[], ?_⟩
      simp only [admin, refused]
      rw [World.sentBy_of_sent (opened.trans said), Sent.series, List.append_nil]
    · cases batch
  | ok p =>
    obtain ⟨t, w', r⟩ := p
    rw [World.sentBy_of_sent (sent_admin batch)]
    by_cases same : a = signer
    · -- the batch issues the nonces from its tracker's cursor, which was just read
      subst same
      obtain ⟨o, -, -, -, rfl, account, -, before, issued, inv⟩ := exists_inv_of_adminBatch batch
      obtain ⟨w₁, opened, -⟩ := exists_of_adminBatch batch
      have cursor := counts.nonce_eq (Tracker.nonce_of_open opened)
      have sentBy := inv.sentBy
      rw [before, Runner.Order.series, account, cursor] at sentBy
      exact ⟨_, sentBy⟩
    · refine ⟨[], ?_⟩
      rw [(growsTo_adminBatch batch).sentBy_of_ne same, Sent.series, List.append_nil]
      exact World.sentBy_of_sent said a

/-- A step of the users hands over calls of each account from the nonce on that the node reports
when it begins. -/
theorem Sale.exists_series_users (counts : sale.client.Counts start receipts)
    (distinct : Function.Injective sale.keyring.account) (w : World σ Call) (step : String)
    (mode : Mode) (calls : List (AccountName × Call)) (a : AccountId) :
    ∃ done, (sale.users w step mode calls).2.sentBy a = w.sentBy a ++
      Sent.series a (start a + Receipt.finals a w.now (receipts w.node)) done := by
  let w₀ := say w .info ("👥 " ++ step ++ " for " ++
    toString (batches sale.keyring calls).length ++ " accounts...")
  have said : w₀.sentBy a = w.sentBy a := World.sentBy_of_sent (World.sent_line w _) a
  obtain ⟨done, sentBy⟩ := exists_series_of_rounds counts (nodup_batches distinct calls)
    (runs_tasksOf sale.client w₀ _ mode sale.options).rounds a
  refine ⟨done, ?_⟩
  rw [World.sentBy_of_sent (sale.sent_users w step mode calls), ← said]
  exact sentBy

/-- The calls of an account that a step hands over. -/
def Visit.handedBy (sale : Sale σ) (v : Visit σ) (a : AccountId) : List (Sent Call) :=
  (v.handed sale).filter fun s => s.account = a

theorem Visit.sentBy_after (sale : Sale σ) (v : Visit σ) (a : AccountId) :
    (v.after sale).sentBy a = v.world.sentBy a ++ v.handedBy sale a := by
  rw [World.sentBy, World.sentBy, Phase.sent_after, List.filter_append, Visit.handedBy]

/-- **The nonces of a step**: its calls of an account go by the nonces from what the node has
counted when the step begins. -/
theorem Visit.exists_handedBy_eq (counts : sale.client.Counts start receipts)
    (distinct : Function.Injective sale.keyring.account) (v : Visit σ) (a : AccountId) :
    ∃ done, v.handedBy sale a =
      Sent.series a (start a + Receipt.finals a v.world.now (receipts v.world.node)) done := by
  suffices after : ∃ done, (v.after sale).sentBy a = v.world.sentBy a ++
      Sent.series a (start a + Receipt.finals a v.world.now (receipts v.world.node)) done by
    obtain ⟨done, sentBy⟩ := after
    exact ⟨done, List.append_cancel_left ((v.sentBy_after sale a).symm.trans sentBy)⟩
  obtain ⟨w, p⟩ := v
  cases p with
  | admin step signer mode calls next => exact Sale.exists_series_admin counts ..
  | users step calls next => exact Sale.exists_series_users counts distinct ..
  | say text next =>
    exact ⟨[], (World.sentBy_of_sent (World.sent_line w _) a).trans (List.append_nil _).symm⟩
  | _ => exact ⟨[], (List.append_nil _).symm⟩

/-- The node has a receipt for each call. -/
theorem Visit.length_receipts (counts : sale.client.Counts start receipts) (v : Visit σ)
    (a : AccountId) :
    (Receipt.ofAccount a (receipts (v.after sale).node)).length =
      (Receipt.ofAccount a (receipts v.world.node)).length + (v.handedBy sale a).length :=
  (counts.booked (v.course_after sale)).length_ofAccount (Phase.sent_after sale v) a

/-- All calls of an account are in finalized blocks when the step begins. -/
def Visit.FindsFinal (receipts : σ → List Receipt) (v : Visit σ) (a : AccountId) : Prop :=
  ∀ r ∈ receipts v.world.node, r.account = a → r.isFinal v.world.now = true

/-- A step that finds all calls of an account final goes on where they end. -/
theorem Visit.nonces_eq (counts : sale.client.Counts start receipts)
    (distinct : Function.Injective sale.keyring.account) (v : Visit σ) (a : AccountId)
    (final : v.handedBy sale a ≠ [] → v.FindsFinal receipts a) :
    (v.handedBy sale a).map (·.nonce) =
      List.range' (start a + (Receipt.ofAccount a (receipts v.world.node)).length)
        (v.handedBy sale a).length := by
  by_cases none : v.handedBy sale a = []
  · rw [none]
    rfl
  · -- all that were received are counted, so the first nonce is the one behind them
    obtain ⟨done, handed⟩ := v.exists_handedBy_eq counts distinct a
    have nonces := Sent.map_nonce_series a
      (start a + Receipt.finals a v.world.now (receipts v.world.node)) done
    have length := congrArg List.length nonces
    rw [List.length_map, List.length_range', ← handed] at length
    rw [← handed, Receipt.finals_eq_length_iff.mpr (final none), ← length] at nonces
    exact nonces

/-! ### The nonces of a phase -/

namespace Phase

/-- The nonces of an account's calls in a run of a phase. -/
def nonces (sale : Sale σ) (w : World σ Call) (p : Phase) (a : AccountId) : List Nat :=
  ((p.visits sale w).flatMap (·.handedBy sale a)).map (·.nonce)

theorem nonces_of_resume {w : World σ Call} {p q : Phase}
    (left : p.resume (Visit.reply sale ⟨w, p⟩) = .ok q) (a : AccountId) :
    p.nonces sale w a = (Visit.handedBy sale ⟨w, p⟩ a).map (·.nonce) ++
      q.nonces sale (Visit.after sale ⟨w, p⟩) a := by
  rw [nonces, visits_eq, left, List.flatMap_cons, List.map_append]
  rfl

theorem nonces_of_resume_error {w : World σ Call} {p : Phase} {result : Except Halt Unit}
    (failed : p.resume (Visit.reply sale ⟨w, p⟩) = .error result) (a : AccountId) :
    p.nonces sale w a = (Visit.handedBy sale ⟨w, p⟩ a).map (·.nonce) := by
  rw [nonces, visits_eq, failed]
  simp

theorem map_nonce_sentBy_run (sale : Sale σ) (w : World σ Call) (p : Phase) (a : AccountId) :
    ((p.run sale w).2.sentBy a).map (·.nonce) =
      (w.sentBy a).map (·.nonce) ++ p.nonces sale w a := by
  rw [World.sentBy, World.sentBy, sent_run, List.filter_append, List.map_append,
    List.filter_flatMap]
  rfl

/-- If each step that hands over a call of an account finds all earlier ones final, then the
nonces of the account go on where the receipts end. -/
theorem nonces_eq_range'_of_final (counts : sale.client.Counts start receipts)
    (distinct : Function.Injective sale.keyring.account) (w : World σ Call) (p : Phase)
    (a : AccountId)
    (final : ∀ v ∈ p.visits sale w, v.handedBy sale a ≠ [] → v.FindsFinal receipts a) :
    p.nonces sale w a =
      List.range' (start a + (Receipt.ofAccount a (receipts w.node)).length)
        (p.nonces sale w a).length := by
  induction w, p using run_induction sale with
  | step w p ih =>
    rw [visits_eq, List.forall_mem_cons] at final
    have first := Visit.nonces_eq counts distinct ⟨w, p⟩ a final.1
    have count := Visit.length_receipts counts ⟨w, p⟩ a
    cases left : p.resume (Visit.reply sale ⟨w, p⟩) with
    | error result =>
      rw [nonces_of_resume_error left, List.length_map]
      exact first
    | ok q =>
      -- the step has added as many receipts as calls, so the rest starts behind its nonces
      rw [left] at final
      have later := ih q left final.2
      rw [count, ← Nat.add_assoc] at later
      rw [nonces_of_resume left, List.length_append, ← List.range'_append_1, List.length_map,
        ← later, ← first]

/-- Nonces that differ from each other and from those of the calls before were read when all earlier
calls were final. -/
theorem final_of_nodup (counts : sale.client.Counts start receipts)
    (distinct : Function.Injective sale.keyring.account) (w : World σ Call) (p : Phase)
    (a : AccountId)
    (nodup : (List.range' (start a) (Receipt.ofAccount a (receipts w.node)).length ++
      p.nonces sale w a).Nodup) :
    ∀ v ∈ p.visits sale w, v.handedBy sale a ≠ [] → v.FindsFinal receipts a := by
  induction w, p using run_induction sale with
  | step w p ih =>
    -- a step with calls finds all earlier ones final
    have first : Visit.handedBy sale ⟨w, p⟩ a ≠ [] → Visit.FindsFinal receipts ⟨w, p⟩ a := by
      intro some
      apply Receipt.finals_eq_length_iff.mp
      by_contra missing
      have below : Receipt.finals a w.now (receipts w.node) <
          (Receipt.ofAccount a (receipts w.node)).length :=
        lt_of_le_of_ne (Receipt.finals_le ..) missing
      obtain ⟨done, handed⟩ := Visit.exists_handedBy_eq counts distinct ⟨w, p⟩ a
      cases done with
      | nil => exact some handed
      | cons call rest =>
        -- the first nonce of the step is that of a call that is not final
        let again := start a + Receipt.finals a w.now (receipts w.node)
        have taken :
            again ∈ List.range' (start a) (Receipt.ofAccount a (receipts w.node)).length := by
          rw [List.mem_range'_1]
          omega
        have used : again ∈ p.nonces sale w a := by
          have mem : again ∈ (Visit.handedBy sale ⟨w, p⟩ a).map (·.nonce) := by
            rw [handed]
            exact List.mem_cons_self
          cases left : p.resume (Visit.reply sale ⟨w, p⟩) with
          | error result => rwa [nonces_of_resume_error left]
          | ok q =>
            rw [nonces_of_resume left]
            exact List.mem_append_left _ mem
        exact List.disjoint_of_nodup_append nodup taken used
    rw [visits_eq, List.forall_mem_cons]
    refine ⟨first, ?_⟩
    cases left : p.resume (Visit.reply sale ⟨w, p⟩) with
    | error result => simp
    | ok q =>
      -- the nonces of the step close up to those before it, so the rest differs from both
      refine ih q left ?_
      rw [nonces_of_resume left, Visit.nonces_eq counts distinct ⟨w, p⟩ a first,
        ← List.append_assoc, List.range'_append_1] at nodup
      rw [Visit.length_receipts counts ⟨w, p⟩ a]
      exact nodup

end Phase

end

/-! ### Nonces of calls that have ended -/

/-- No call of the account goes by the nonce of an earlier one, unless that had ended as invalid or
dropped when the later one was handed over. -/
def World.KeepsNonces {κ : Type} (table : ErrorTable) (feeds : σ → AccountId → List Feed)
    (a : AccountId) (w : World σ κ) : Prop :=
  (w.followed feeds a).Pairwise fun x y => x.sent.nonce = y.sent.nonce → x.IsVoid table y.moment

/-- Nonces that are all different are kept. -/
theorem World.keepsNonces_of_nodup {κ : Type} {feeds : σ → AccountId → List Feed} {a : AccountId}
    {w : World σ κ} (table : ErrorTable) (covered : w.Covered feeds a)
    (nodup : ((w.sentBy a).map (·.nonce)).Nodup) : w.KeepsNonces table feeds a := by
  rw [← covered.map_sent, List.map_map, List.Nodup, List.pairwise_map] at nodup
  exact nodup.imp fun differ same => absurd same differ

section

variable {sale : Sale σ} {start : AccountId → Nat} {receipts : σ → List Receipt}
  {feeds : σ → AccountId → List Feed}

namespace Visit

/-- The calls of an account that a step hands over, each with its moment and the reports on it. -/
def followedBy (sale : Sale σ) (feeds : σ → AccountId → List Feed) (v : Visit σ) (a : AccountId) :
    List (Followed Call) :=
  ((v.after sale).followed feeds a).drop (v.world.followed feeds a).length

theorem covered_after (recalls : sale.client.Recalls feeds) {v : Visit σ} {a : AccountId}
    (covered : v.world.Covered feeds a) : (v.after sale).Covered feeds a := by
  obtain ⟨new, gets⟩ := recalls.exists_gets (v.course_after sale) a
  exact gets.covered covered

theorem followed_after (recalls : sale.client.Recalls feeds) {v : Visit σ} {a : AccountId}
    (covered : v.world.Covered feeds a) :
    (v.after sale).followed feeds a = v.world.followed feeds a ++ v.followedBy sale feeds a := by
  obtain ⟨new, gets⟩ := recalls.exists_gets (v.course_after sale) a
  rw [followedBy, gets.followed_eq covered, List.drop_left]

theorem map_sent_followedBy (recalls : sale.client.Recalls feeds) {v : Visit σ} {a : AccountId}
    (covered : v.world.Covered feeds a) :
    (v.followedBy sale feeds a).map (·.sent) = v.handedBy sale a := by
  have whole := (covered_after recalls covered).map_sent
  rw [followed_after recalls covered, List.map_append, covered.map_sent, v.sentBy_after] at whole
  exact List.append_cancel_left whole

/-- The calls of an account go by the nonces from what the node has counted when the step begins. -/
theorem nonces_followedBy (counts : sale.client.Counts start receipts)
    (recalls : sale.client.Recalls feeds) (distinct : Function.Injective sale.keyring.account)
    {v : Visit σ} {a : AccountId} (covered : v.world.Covered feeds a) :
    (v.followedBy sale feeds a).map (·.sent.nonce) =
      List.range' (start a + Receipt.finals a v.world.now (receipts v.world.node))
        (v.followedBy sale feeds a).length := by
  have handed : (v.followedBy sale feeds a).map (·.sent) = v.handedBy sale a :=
    map_sent_followedBy recalls covered
  obtain ⟨done, series⟩ := v.exists_handedBy_eq counts distinct a
  have nonces := Sent.map_nonce_series a
    (start a + Receipt.finals a v.world.now (receipts v.world.node)) done
  have length := congrArg List.length nonces
  rw [List.length_map, List.length_range', ← series, ← handed, List.length_map] at length
  rw [← series, ← handed, List.map_map, ← length] at nonces
  exact nonces

/-- The nonces that a step uses are free when it uses them: an earlier call of the account that goes
by one of them has ended as invalid or dropped. They are counted from the nonce that the node
reports when the step begins. -/
def FindsFree (sale : Sale σ) (start : AccountId → Nat) (receipts : σ → List Receipt)
    (feeds : σ → AccountId → List Feed) (v : Visit σ) (a : AccountId) : Prop :=
  ∀ x ∈ v.world.followed feeds a, ∀ (k : Nat) (y : Followed Call),
    (v.followedBy sale feeds a)[k]? = some y →
      x.sent.nonce = start a + Receipt.finals a v.world.now (receipts v.world.node) + k →
        x.IsVoid sale.client.errors y.moment

/-- A step keeps the nonces of an account if those that it uses are free. -/
theorem keepsNonces_after_iff (counts : sale.client.Counts start receipts)
    (recalls : sale.client.Recalls feeds) (distinct : Function.Injective sale.keyring.account)
    {v : Visit σ} {a : AccountId} (covered : v.world.Covered feeds a) :
    (v.after sale).KeepsNonces sale.client.errors feeds a ↔
      v.world.KeepsNonces sale.client.errors feeds a ∧ v.FindsFree sale start receipts feeds a := by
  have nonces : (v.followedBy sale feeds a).map (·.sent.nonce) =
      List.range' (start a + Receipt.finals a v.world.now (receipts v.world.node))
        (v.followedBy sale feeds a).length :=
    nonces_followedBy counts recalls distinct covered
  have nonce : ∀ (k : Nat) (y : Followed Call), (v.followedBy sale feeds a)[k]? = some y →
      y.sent.nonce = start a + Receipt.finals a v.world.now (receipts v.world.node) + k := by
    intro k y found
    obtain ⟨below, -⟩ := List.getElem?_eq_some_iff.mp found
    have listed := congrArg (·[k]?) nonces
    simp only [List.getElem?_map, found, List.getElem?_range' below, Nat.one_mul] at listed
    exact Option.some.inj listed
  -- within the step, no two calls go by one nonce
  have own : (v.followedBy sale feeds a).Pairwise fun x y =>
      x.sent.nonce = y.sent.nonce → x.IsVoid sale.client.errors y.moment := by
    have nodup : ((v.followedBy sale feeds a).map (·.sent.nonce)).Nodup := by
      rw [nonces]
      exact List.nodup_range'
    rw [List.Nodup, List.pairwise_map] at nodup
    exact nodup.imp fun differ same => absurd same differ
  -- what remains is an earlier call with one of the step
  rw [World.KeepsNonces, followed_after recalls covered, List.pairwise_append]
  constructor
  · rintro ⟨before, -, free⟩
    refine ⟨before, ?_⟩
    intro x old k y found same
    exact free x old y (List.mem_of_getElem? found) (same.trans (nonce k y found).symm)
  · rintro ⟨before, free⟩
    refine ⟨before, own, ?_⟩
    intro x old y mem same
    obtain ⟨k, found⟩ := List.mem_iff_getElem?.mp mem
    exact free x old k y found (same.trans (nonce k y found))

end Visit

/-- **When a phase uses the nonce of a call that may still land.** Let the node count the finalized
calls of each account and keep in mind what it reports on them. The calls of an account that a run
hands over leave the nonces of earlier calls alone, those excepted that had ended as invalid or
dropped, exactly if the nonces that each step uses are free. -/
theorem Phase.keepsNonces_iff (counts : sale.client.Counts start receipts)
    (recalls : sale.client.Recalls feeds) (distinct : Function.Injective sale.keyring.account)
    {w : World σ Call} {a : AccountId} (covered : w.Covered feeds a) (p : Phase) :
    (p.run sale w).2.KeepsNonces sale.client.errors feeds a ↔
      w.KeepsNonces sale.client.errors feeds a ∧
        ∀ v ∈ p.visits sale w, v.FindsFree sale start receipts feeds a := by
  induction w, p using run_induction sale with
  | step w p ih =>
    have first := Visit.keepsNonces_after_iff (v := ⟨w, p⟩) counts recalls distinct covered
    rw [run_eq, visits_eq, List.forall_mem_cons, ← and_assoc, ← first]
    cases left : p.resume (Visit.reply sale ⟨w, p⟩) with
    | ok q => exact ih q left (Visit.covered_after (v := ⟨w, p⟩) recalls covered)
    | error result => simp

/-- A phase of which each step finds all calls of the account final keeps its nonces. -/
theorem Phase.keepsNonces_of_final (counts : sale.client.Counts start receipts)
    (recalls : sale.client.Recalls feeds) (distinct : Function.Injective sale.keyring.account)
    {w : World σ Call} {a : AccountId} (covered : w.Covered feeds a) (unsent : w.sent = [])
    (p : Phase) (final : ∀ v ∈ p.visits sale w, v.handedBy sale a ≠ [] → v.FindsFinal receipts a) :
    (p.run sale w).2.KeepsNonces sale.client.errors feeds a := by
  obtain ⟨new, gets⟩ := recalls.exists_gets (p.course_run sale w) a
  refine World.keepsNonces_of_nodup _ (gets.covered covered) ?_
  rw [map_nonce_sentBy_run, World.sentBy, unsent, List.filter_nil, List.map_nil, List.nil_append,
    nonces_eq_range'_of_final counts distinct w p a final]
  exact List.nodup_range'

/-- **When a phase uses nonces again.** Let the node count the finalized calls of each account, from
the start of the phase on. The nonces of an account's calls in the run are all different exactly if
each step that hands over a call of the account finds its earlier calls in finalized blocks. -/
theorem Phase.nodup_nonces_iff (counts : sale.client.Counts start receipts)
    (distinct : Function.Injective sale.keyring.account) (w : World σ Call)
    (fresh : receipts w.node = []) (unsent : w.sent = []) (p : Phase) (a : AccountId) :
    (((p.run sale w).2.sentBy a).map (·.nonce)).Nodup ↔
      ∀ v ∈ p.visits sale w, v.handedBy sale a ≠ [] → v.FindsFinal receipts a := by
  have none : (w.sentBy a).map (·.nonce) = [] := by
    rw [World.sentBy, unsent]
    rfl
  have zero : (Receipt.ofAccount a (receipts w.node)).length = 0 := by
    rw [fresh]
    rfl
  rw [map_nonce_sentBy_run, none, List.nil_append]
  constructor
  · intro nodup
    apply final_of_nodup counts distinct
    rw [zero]
    exact nodup
  · intro final
    rw [nonces_eq_range'_of_final counts distinct w p a final]
    exact List.nodup_range'

end

/-! ### Calls that stay pending -/

/-- A node that counts, and finalizes each call as soon as it gets it; but it never gets to the
calls that feed a shell. -/
def Client.stalled : Client (List Receipt) Call where
  nonce receipts now a := (.ok (Receipt.finals a now receipts), receipts)
  handOver receipts now a _ call :=
    match call with
    | .feedOriginOfShell .. => ({}, receipts ++ [⟨a, none⟩])
    | _ => ({ feed := [(now, .event (.finalized (.ofNat 1) []))] }, receipts ++ [⟨a, some now⟩])
  errors := fun _ _ => none

theorem Client.counts_stalled : Client.stalled.Counts (fun _ => 0) id where
  nonce_eq := by
    intro node now a nonce answer
    cases answer
    exact (Nat.zero_add _).symm
  receipts_nonce := fun _ _ _ => rfl
  receipts_handOver := by
    intro node now a nonce call
    cases call with
    | feedOriginOfShell collection nft => exact ⟨none, rfl⟩
    | _ => exact ⟨some now, rfl⟩

/-- What this node reports on the calls of an account. -/
def Receipt.feeds (rs : List Receipt) (a : AccountId) : List Feed :=
  (ofAccount a rs).map fun r =>
    r.final.toList.map fun at_ => (at_, .event (.finalized (.ofNat 1) []))

theorem Client.recalls_stalled : Client.stalled.Recalls Receipt.feeds where
  feeds_nonce := fun _ _ _ => rfl
  feeds_handOver := by
    intro node now a b nonce call
    by_cases mine : b = a
    · cases call <;> simp [stalled, Receipt.feeds, Receipt.ofAccount, mine]
    · cases call <;> simp [stalled, Receipt.feeds, Receipt.ofAccount, mine]

/-- The step in which an account feeds a shell while none of its calls is final: the node gets to it
as little as to those before. -/
theorem Phase.exists_run_stalled (sale : Sale (List Receipt)) (stalled : sale.client = .stalled)
    (unbroken : sale.options.abort = none) {w : World (List Receipt) Call} (step : String)
    (name : AccountName) (collection nft : Nat) (next : Phase) (free : w.registry = {})
    (none : Receipt.finals (sale.keyring.account name) w.now w.node = 0) :
    ∃ u, (users step [(name, .feedOriginOfShell collection nft)] next).run sale w =
        next.run sale u ∧ u.registry = {} ∧
      u.node = w.node ++ [⟨sale.keyring.account name, .none⟩] ∧
      u.sent = w.sent ++ [⟨sale.keyring.account name, 0, .feedOriginOfShell collection nft⟩] := by
  have answer : sale.client.nonce w.node w.now (sale.keyring.account name) = (.ok 0, w.node) := by
    rw [stalled, ← none]
    rfl
  have calm : w.aborted sale.options = false := by
    rw [World.aborted, unbroken]
  obtain ⟨u, ran, took⟩ := exists_run_users_single sale w step name
    (.feedOriginOfShell collection nft) next (by rw [free]; exact List.not_mem_nil) answer calm
    (by decide)
  have node := took.node
  rw [stalled] at node
  exact ⟨u, ran, took.registry.trans free, node, took.sent⟩

/-- If no shell was fed, there is no reward. -/
theorem Phase.run_reward_of_unfed (sale : Sale σ) (w : World σ Call) {era : Nat}
    (known : ChainState.era sale.storage w.node w.now = .ok era)
    (unfed : ChainState.food sale.storage w.node w.now era = .ok []) (reductions : List Nat) :
    ((reward reductions).run sale w).2.sent = w.sent ∧
      ((reward reductions).run sale w).2.node = w.node := by
  have unranked : rankHatchTimes [] reductions = [] := by
    rw [rankHatchTimes, FeedCounts.ranking, List.filter_nil, List.mergeSort_nil]
    rfl
  simp only [reward, run, known, onAnswer, unfed, unranked, List.isEmpty_nil, ↓reduceIte]
  exact ⟨(World.sent_line _ _).trans (World.sent_line _ _), rfl⟩

/-- An incubation in which one account feeds a shell in each of two rounds. The node never gets to
the first feeding, so it reports the nonce of that as free, and the second goes by it again. By all
that the node reports, the first stays pending all the while. -/
theorem Phase.nodup_nonces_iff_stalled :
    let sale : Sale (List Receipt) :=
      { client := .stalled
        storage :=
          { collection := fun _ _ => .ok none, era := fun _ _ => .ok 0
            owned := fun _ _ _ _ => .ok [], food := fun _ _ _ => .ok [] }
        keyring := ⟨fun name => .ofNat name.index⟩
        options := { timeout := 1000 } }
    let plan : IncubationPlan :=
      { collection := some 1, incubators := [], rounds := [[⟨.bob, 1⟩], [⟨.bob, 2⟩]] }
    let w : World (List Receipt) Call := { node := [] }
    let p := Phase.incubation plan
    let q := p.run sale w
    let bob := sale.keyring.account .bob
    sale.client.Recalls Receipt.feeds ∧
      (∃ m n, q.2.followed Receipt.feeds bob =
        [⟨m, ⟨bob, 0, .feedOriginOfShell 1 1⟩, []⟩, ⟨n, ⟨bob, 0, .feedOriginOfShell 1 2⟩, []⟩]) ∧
      (∀ x ∈ q.2.followed Receipt.feeds bob, ∀ now,
        x.statusAt sale.client.errors now = .pending) ∧
      ¬q.2.KeepsNonces sale.client.errors Receipt.feeds bob ∧
      ¬((q.2.sentBy bob).map (·.nonce)).Nodup ∧
      ¬∀ v ∈ p.visits sale w, v.handedBy sale bob ≠ [] → v.FindsFinal id bob := by
  intro sale plan w p q bob
  have distinct : Function.Injective sale.keyring.account :=
    Keyring.injective_of_collision? (by decide)
  -- the overlord's call is final at once, so the phase comes to the feedings
  let second : Phase := users ("Feeding round " ++ toString 2) [(.bob, .feedOriginOfShell 1 2)]
    (reward plan.reductions)
  let first : Phase := users ("Feeding round " ++ toString 1) [(.bob, .feedOriginOfShell 1 1)]
    second
  obtain ⟨w₁, enabled, took⟩ := exists_run_decree sale w "Enable the incubation process"
    (.setCanStartIncubationStatus true) (users "Start incubation" [] first) List.not_mem_nil rfl rfl
    (by decide)
    fun s fresh feed => s.isAccepted_wait_of_final _ fresh feed rfl _ (Nat.zero_le _)
  obtain ⟨w₂, started, registry₂, node₂, sent₂⟩ :=
    exists_run_users_nil sale w₁ "Start incubation" first
  have kept₂ : w₂.node = [⟨sale.keyring.account .overlord, some 0⟩] := node₂.trans took.node
  obtain ⟨w₃, fed, registry₃, node₃, sent₃⟩ := exists_run_stalled sale rfl rfl
    ("Feeding round " ++ toString 1) .bob 1 1 second (registry₂.trans took.registry)
    (by rw [kept₂]; rfl)
  obtain ⟨w₄, again, -, node₄, sent₄⟩ := exists_run_stalled sale rfl rfl
    ("Feeding round " ++ toString 2) .bob 1 2 (reward plan.reductions) registry₃
    (by rw [node₃, kept₂]; rfl)
  have reached : q = (reward plan.reductions).run sale w₄ := by
    rw [← again, ← fed, ← started, ← enabled]
    rfl
  -- no feeding is on the chain, so there is nothing to reward
  obtain ⟨unrewarded, node₅⟩ :=
    run_reward_of_unfed sale w₄ rfl rfl plan.reductions
  have sent : q.2.sentBy bob =
      [⟨bob, 0, .feedOriginOfShell 1 1⟩, ⟨bob, 0, .feedOriginOfShell 1 2⟩] := by
    rw [World.sentBy, reached, unrewarded, sent₄, sent₃, sent₂, took.sent]
    rfl
  have feeds : Receipt.feeds q.2.node bob = [[], []] := by
    rw [reached, node₅, node₄, node₃, kept₂]
    rfl
  have followed : ∃ m n, q.2.followed Receipt.feeds bob =
      [⟨m, ⟨bob, 0, .feedOriginOfShell 1 1⟩, []⟩, ⟨n, ⟨bob, 0, .feedOriginOfShell 1 2⟩, []⟩] := by
    have calls := q.2.map_callsBy bob
    rw [sent] at calls
    obtain ⟨⟨m, _⟩, _, calls, rfl, rest⟩ := List.map_eq_cons_iff.mp calls
    obtain ⟨⟨n, _⟩, _, rfl, rfl, none⟩ := List.map_eq_cons_iff.mp rest
    obtain rfl := List.map_eq_nil_iff.mp none
    exact ⟨m, n, by rw [World.followed, calls, feeds]; rfl⟩
  -- both feedings go by nonce 0
  have repeated : ¬((q.2.sentBy bob).map (·.nonce)).Nodup := by
    rw [sent]
    decide
  refine ⟨Client.recalls_stalled, followed, ?_, ?_, repeated, ?_⟩
  · obtain ⟨m, n, followed⟩ := followed
    rw [followed]
    simp only [List.forall_mem_cons, List.not_mem_nil, false_implies, implies_true, and_true]
    exact ⟨fun _ => rfl, fun _ => rfl⟩
  -- the first feeding is neither invalid nor dropped when the second is handed over
  · obtain ⟨m, n, followed⟩ := followed
    intro keeps
    rw [World.KeepsNonces, followed, List.pairwise_cons] at keeps
    obtain ⟨message, void | void⟩ := keeps.1 _ List.mem_cons_self rfl
    · cases void
    · cases void
  · exact fun final => repeated
      ((nodup_nonces_iff Client.counts_stalled distinct w rfl rfl p bob).mpr final)

end ShellSale
