import ShellSale.Proofs.Sale.Groups
import ShellSale.Proofs.Sale.Reports

/-!
## Calls and outcomes by account

The calls of a step of the users are given in one list. On their way they are grouped by account,
made into batches, handed over by tasks that run at the same time, and gathered again in the order
of the accounts. If nothing cuts the step short, each account has handed over just its own calls of
the list, in their order, and its outcomes are those of these calls one by one.

* `Batch.Credit` is what a batch has done that nothing has cut short, `Sale.Undisturbed` says that
  nothing cuts a step short.
* `Sale.exists_credits_users`: each batch of an undisturbed step has its credit.
* `Sale.length_sent_of_credits`: all calls that are handed over belong to some batch.
* `Sale.users_credit` is the main result.
-/

namespace ShellSale

variable {σ κ : Type}

/-! ### Batches -/

/-- **What a batch has done that nothing has cut short**: it has handed over all its calls under
consecutive nonces from the one that the node reported for its account, and has the outcome of each
call in its place. Each wait begins when the ones before have ended. -/
structure Batch.Credit (client : Client σ κ) (mode : Mode) (options : Options) (b : Batch κ)
    (first : Nat) (w w' : World σ κ) (subs : List Submission) (outcomes : List Outcome) : Prop where
  opens : World.Opens client w w' b.account first
  sentBy : w'.sentBy b.account = w.sentBy b.account ++ Sent.series b.account first b.calls
  each : ∀ (i : Nat) call, b.calls[i]? = some call → ∃ s, subs[i]? = some s ∧
    w.Handed client w' b.account (first + i) call s ∧
    outcomes[i]? = some (s.wait client.errors (options.levelOf mode)
      (Submission.waitsEnd client.errors (options.levelOf mode) options.timeout w.now
        (subs.take i)) options.timeout).1
  count : outcomes.length = b.calls.length

/-- A batch that reports outcomes has its credit if nothing has cut it short. -/
theorem Batch.Report.credit {client : Client σ κ} {mode : Mode} {options : Options} {b : Batch κ}
    {first : Nat} {w w' : World σ κ} {subs : List Submission} {outcomes : List Outcome}
    (h : b.Report client mode options first w w' subs outcomes)
    (opens : subs ≠ [] → World.Opens client w w' b.account first)
    (calm : ∀ x ∈ outcomes, options.stopsOn x = false) (unraised : w'.aborted options = false)
    (some : b.calls ≠ []) : b.Credit client mode options first w w' subs outcomes := by
  -- calls are left out only under the signal or behind an outcome that stops the batch
  have whole : subs.length = b.calls.length := by
    refine h.length_le.eq_of_not_lt fun short => ?_
    rcases h.whole short with raised | ⟨x, mem, stops⟩
    · simp [unraised] at raised
    · simp [calm x mem] at stops
  have outcomes_eq := h.outcomes_eq
  rw [outcomes_eq] at calm
  rw [Policy.reported_eq_self calm] at outcomes_eq
  have sentBy := h.sentBy
  rw [whole, List.take_length] at sentBy
  refine { opens := opens ?_, sentBy, each := ?_, count := ?_ }
  · intro none
    rw [none] at whole
    exact some (List.eq_nil_of_length_eq_zero whole.symm)
  · intro i call listed
    obtain ⟨bound, rfl⟩ := List.getElem?_eq_some_iff.mp listed
    have within : i < subs.length := bound.trans_eq whole.symm
    have found := List.getElem?_eq_getElem within
    obtain ⟨call, listed', handed⟩ := h.handed i _ found
    obtain rfl := Option.some.inj (listed.symm.trans listed')
    refine ⟨_, found, handed, ?_⟩
    rw [outcomes_eq, List.getElem?_map, Submission.getElem?_waits, found]
    rfl
  · rw [outcomes_eq, List.length_map, Submission.length_waits, whole]

/-! ### Steps -/

namespace Sale

/-- Nothing cuts a step of the users short: no task of it has a hard error or an outcome that its
batch stops on, and the signal is not raised by the end. -/
structure Undisturbed (sale : Sale σ) (w : World σ Call) (step : String) (mode : Mode)
    (calls : List (AccountName × Call)) : Prop where
  fine : ∀ t ∈ (sale.userTasks w step mode calls).2, t.error? = none
  calm : ∀ t ∈ (sale.userTasks w step mode calls).2, ∀ a outcomes,
    t.result? = some (a, outcomes) → ∀ x ∈ outcomes, sale.options.stopsOn x = false
  unraised : (sale.users w step mode calls).2.aborted sale.options = false

variable {sale : Sale σ} {w : World σ Call} {step : String} {mode : Mode}
  {calls : List (AccountName × Call)} {outcomes : AccountMap (List Outcome)}

theorem Undisturbed.exists_ok (h : sale.Undisturbed w step mode calls) :
    ∃ outcomes, (sale.users w step mode calls).1 = .ok outcomes := by
  rw [users_eq_ok_iff]
  intro t mem
  obtain ⟨e | outcomes, state⟩ := sale.userTasks_ended w step mode calls t mem
  · have fine := h.fine t mem
    rw [SignerTask.error?, state] at fine
    cases fine
  · exact ⟨outcomes, state⟩

/-- **Each batch of an undisturbed step has its credit**, under its account. -/
theorem exists_credits_users (distinct : ((batches sale.keyring calls).map (·.account)).Nodup)
    (undisturbed : sale.Undisturbed w step mode calls)
    (ok : (sale.users w step mode calls).1 = .ok outcomes) :
    outcomes.Ascending ∧ ∃ entries, outcomes.Perm entries ∧
      List.Forall₂ (fun entry b => entry.1 = b.account ∧
        ∃ first subs, Batch.Credit sale.client mode sale.options b first w
          (sale.users w step mode calls).2 subs entry.2)
        entries (batches sale.keyring calls) := by
  obtain ⟨ascending, entries, perm, starts⟩ := exists_starts_users distinct ok
  have given := (List.forall₂_and_left _ _).mpr ⟨fun entry mem => mem, starts.flip⟩
  have filled := ((List.forall₂_and_left _ _).mpr ⟨fun b mem => mem, given.flip⟩).flip
  refine ⟨ascending, entries, perm, filled.imp ?_⟩
  rintro entry b ⟨ofBatch, listed, account, first, subs, report, opens⟩
  refine ⟨account, first, subs, report.credit opens ?_ undisturbed.unraised ?_⟩
  · obtain ⟨t, mem, result⟩ := (mem_users_iff distinct ok entry).mp (perm.mem_iff.mpr listed)
    exact undisturbed.calm t mem _ _ result
  · -- an account has a batch only if it has calls
    obtain ⟨name, mem, rfl⟩ := mem_batches_iff.mp ofBatch
    exact fun none => (ownOf_eq_nil_iff name calls).mp none mem

/-- **All calls that are handed over belong to some batch**, so there are as many as the batches
have together. -/
theorem length_sent_of_credits (distinct : ((batches sale.keyring calls).map (·.account)).Nodup)
    {w' : World σ Call} {new : List (Sent Call)} (sent : w'.sent = w.sent ++ new)
    (own : ∀ b ∈ batches sale.keyring calls, ∃ first, w'.sentBy b.account =
      w.sentBy b.account ++ Sent.series b.account first b.calls)
    (others : ∀ a, a ∉ (batches sale.keyring calls).map (·.account) → w'.sentBy a = w.sentBy a) :
    new.length = calls.length := by
  -- nobody but the accounts of the batches has made a call
  have covered : ∀ s ∈ new, s.account ∈ (batches sale.keyring calls).map (·.account) := by
    intro s mem
    by_contra none
    have more := others s.account none
    rw [World.sentBy_append sent, List.append_right_eq_self, List.filter_eq_nil_iff] at more
    exact more s mem (decide_eq_true rfl)
  -- so the new calls are those of the batches, sorted by account
  have sorted := perm_flatMap_filter Sent.account distinct covered
  have counts : ∀ b ∈ batches sale.keyring calls,
      (new.filter fun s => s.account = b.account).length = b.calls.length := by
    intro b mem
    obtain ⟨first, more⟩ := own b mem
    rw [World.sentBy_append sent] at more
    rw [List.append_cancel_left more, Sent.length_series]
  calc new.length
    _ = (((batches sale.keyring calls).map (·.account)).flatMap fun a =>
          new.filter fun s => s.account = a).length := sorted.length_eq.symm
    _ = ((batches sale.keyring calls).flatMap (·.calls)).length := by
        rw [List.flatMap_map, List.length_flatMap, List.length_flatMap, List.map_congr_left counts]
    _ = calls.length := length_flatMap_batches sale.keyring calls

/-- **Every call is handed over and credited where it belongs** in a step of the users that nothing
cuts short, however the accounts take turns in its list. Each account that occurs hands over just
its own calls, in the order of the list, under consecutive nonces from the one that the node
reported for it, and is listed with one outcome for each of them, in the same order. No other
account hands over a call or is listed. So there are as many new calls, and as many outcomes, as
there are calls in the list. -/
theorem users_credit
    (apart : ∀ m ∈ calls.map (·.1), ∀ n ∈ calls.map (·.1),
      sale.keyring.account m = sale.keyring.account n → m = n)
    (undisturbed : sale.Undisturbed w step mode calls) :
    let u := sale.users w step mode calls
    ∃ outcomes, u.1 = .ok outcomes ∧ outcomes.Ascending ∧
      (∀ name ∈ calls.map (·.1), ∃ given, (sale.keyring.account name, given) ∈ outcomes ∧
        ∃ first subs, Batch.Credit sale.client mode sale.options
          ⟨sale.keyring.account name, ownOf name calls⟩ first w u.2 subs given) ∧
      (∀ a, (∀ name ∈ calls.map (·.1), sale.keyring.account name ≠ a) →
        u.2.sentBy a = w.sentBy a ∧ ∀ given, (a, given) ∉ outcomes) ∧
      (∃ new, u.2.sent = w.sent ++ new ∧ new.length = calls.length) ∧
      (outcomes.flatMap (·.2)).length = calls.length := by
  intro u
  obtain ⟨outcomes, ok⟩ := undisturbed.exists_ok
  have distinct := nodup_accounts_batches apart
  obtain ⟨ascending, entries, perm, credits⟩ := exists_credits_users distinct undisturbed ok
  -- each account of the batches has one entry, so what holds of its batch holds of its entry
  have accounts : List.Forall₂ (fun entry b => entry.1 = b.account) entries
      (batches sale.keyring calls) := credits.imp fun _ _ credit => credit.1
  have credited := (forall_batch_iff (P := fun given b => ∃ first subs,
    Batch.Credit sale.client mode sale.options b first w u.2 subs given) distinct accounts).mpr
      (credits.imp fun _ _ credit => credit.2)
  have absent : ∀ a, (∀ name ∈ calls.map (·.1), sale.keyring.account name ≠ a) →
      a ∉ (batches sale.keyring calls).map (·.account) := by
    intro a others mem
    obtain ⟨b, ofBatch, rfl⟩ := List.mem_map.mp mem
    obtain ⟨name, listed, rfl⟩ := mem_batches_iff.mp ofBatch
    exact others name listed rfl
  refine ⟨outcomes, ok, ascending, ?_, ?_, ?_, ?_⟩
  · intro name listed
    obtain ⟨given, mem, credit⟩ := credited _ (mem_batches_iff.mpr ⟨name, listed, rfl⟩)
    exact ⟨given, perm.mem_iff.mpr mem, credit⟩
  · intro a others
    refine ⟨sentBy_users_of_not_mem distinct ok (absent a others), ?_⟩
    intro given mem
    have key := List.mem_map_of_mem (f := (·.1)) (perm.mem_iff.mp mem)
    rw [keys_eq_accounts accounts] at key
    exact absent a others key
  · obtain ⟨new, sent⟩ := (sale.growsTo_users w step mode calls).exists_sent_eq
    refine ⟨new, sent, length_sent_of_credits distinct sent ?_ ?_⟩
    · intro b mem
      obtain ⟨given, -, first, subs, credit⟩ := credited b mem
      exact ⟨first, credit.sentBy⟩
    · exact fun a others => sentBy_users_of_not_mem distinct ok others
  · have counts : List.Forall₂ (fun entry b => entry.2.length = b.calls.length) entries
        (batches sale.keyring calls) := credits.imp fun _ _ ⟨_, _, _, credit⟩ => credit.count
    rw [(perm.flatMap_right _).length_eq, ← length_flatMap_batches sale.keyring calls]
    exact (length_flatMap_of_forall₂ (counts.imp fun _ _ => Nat.le_of_eq)).2.mpr counts

/-- Bob and Alice feed their shells by turns, and Bob's two calls are told apart by their nonces. -/
theorem users_credit_by_turns :
    let sale : Sale Unit :=
      { client :=
          { nonce := fun _ _ _ => (.ok 5, ())
            handOver := fun _ now _ nonce _ =>
              ({ feed := [(now, .event (.finalized (.ofNat nonce) []))] }, ())
            errors := fun _ _ => none }
        storage :=
          { collection := fun _ _ => .ok none, era := fun _ _ => .ok 0
            owned := fun _ _ _ _ => .ok [], food := fun _ _ _ => .ok [] }
        keyring := ⟨fun name => .ofNat name.index⟩
        options := { timeout := 1000 } }
    let calls : List (AccountName × Call) :=
      [(.bob, .feedOriginOfShell 1 7), (.alice, .feedOriginOfShell 1 8),
        (.bob, .feedOriginOfShell 1 9)]
    let bob := sale.keyring.account .bob
    let w : World Unit Call := { node := () }
    let u := sale.users w "Feed" .pipelined calls
    (∀ m ∈ calls.map (·.1), ∀ n ∈ calls.map (·.1),
      sale.keyring.account m = sale.keyring.account n → m = n) ∧
      sale.Undisturbed w "Feed" .pipelined calls ∧
      ∃ outcomes given first, u.1 = .ok outcomes ∧ (bob, given) ∈ outcomes ∧ given.length = 2 ∧
        u.2.sentBy bob =
          Sent.series bob first [.feedOriginOfShell 1 7, .feedOriginOfShell 1 9] ∧
        (outcomes.flatMap (·.2)).length = 3 := by
  intro sale calls bob w u
  have apart : ∀ m ∈ calls.map (·.1), ∀ n ∈ calls.map (·.1),
      sale.keyring.account m = sale.keyring.account n → m = n := by decide
  have ok : ∃ outcomes, u.1 = .ok outcomes := by
    have users : u = _ := users_eq ..
    rw [userTasks, tasksOf, SignerTask.drive_of_some rfl, SignerTask.drive_of_some rfl,
      SignerTask.drive_of_some rfl, SignerTask.drive_of_none rfl] at users
    rw [users]
    exact ⟨_, rfl⟩
  have undisturbed : sale.Undisturbed w "Feed" .pipelined calls := by
    refine { fine := ?_, calm := fun _ _ _ _ _ _ _ => rfl, unraised := rfl }
    intro t mem
    obtain ⟨outcomes, state⟩ := (users_eq_ok_iff sale w "Feed" .pipelined calls).mp ok t mem
    rw [SignerTask.error?, state]
  obtain ⟨outcomes, ok, -, credits, -, -, count⟩ := users_credit apart undisturbed
  obtain ⟨given, mem, first, subs, credit⟩ := credits .bob (by decide)
  exact ⟨apart, undisturbed, outcomes, given, first, ok, mem, credit.count, credit.sentBy, count⟩

end Sale

end ShellSale
