import ShellSale.Proofs.Pool.Registry

/-!
## The nonces of one tracker

While a tracker stays open, its nonces depend on two kinds of events only: a call is submitted
through it, or a nonce is read from the chain. `CursorEvent.replay` says what these come to. All
else that happens in the pool, also to the calls themselves, leaves the cursor alone.

* `CursorEvent.replay_submits`: submissions in a row go out under consecutive nonces, and none goes
  out once there is no nonce left.
* `Pool.traced_step`: what a move does to the cursor of an account and to the calls of the account.
* `Pool.nonces_play` is the same for all moves of a run.
-/

namespace ShellSale

variable {σ κ : Type}

/-! ### Events of a cursor -/

/-- What moves the cursor of a tracker: a call is submitted, or a nonce is read from the chain. -/
inductive CursorEvent (κ : Type) where
  | submit (call : κ)
  | read (nonce : Nat)

namespace CursorEvent

/-- The calls that events hand over from a nonce on, and the nonce they lead to. A call is not
handed over if there is no nonce left for it. -/
def replay (a : AccountId) : Nat → List (CursorEvent κ) → List (Sent κ) × Nat
  | n, [] => ([], n)
  | n, submit call :: rest =>
    if n < NonceCursor.last then
      (⟨a, n, call⟩ :: (replay a (n + 1) rest).1, (replay a (n + 1) rest).2)
    else replay a n rest
  | _, read nonce :: rest => replay a nonce rest

theorem replay_append (a : AccountId) (n : Nat) (es more : List (CursorEvent κ)) :
    replay a n (es ++ more) =
      ((replay a n es).1 ++ (replay a (replay a n es).2 more).1,
        (replay a (replay a n es).2 more).2) := by
  induction es generalizing n with
  | nil => rfl
  | cons e rest ih =>
    cases e with
    | submit call =>
      rw [List.cons_append, replay, replay]
      split
      · rw [ih]
        rfl
      · exact ih n
    | read nonce => exact ih nonce

/-- Submissions in a row go out under consecutive nonces, as long as there are nonces left. -/
theorem replay_submits (a : AccountId) (n : Nat) (calls : List κ) :
    replay a n (calls.map submit) =
      (Sent.series a n (calls.take (NonceCursor.last - n)),
        n + min calls.length (NonceCursor.last - n)) := by
  induction calls generalizing n with
  | nil => simp [replay, Sent.series]
  | cons call rest ih =>
    rw [List.map_cons, replay, List.length_cons]
    split
    · rename_i below
      obtain ⟨left, room⟩ : ∃ left, NonceCursor.last - n = left + 1 :=
        ⟨NonceCursor.last - n - 1, by omega⟩
      have next : NonceCursor.last - (n + 1) = left := by omega
      rw [ih, next, room, List.take_succ_cons, Sent.series]
      refine Prod.ext rfl ?_
      dsimp only
      omega
    · rename_i full
      have none : NonceCursor.last - n = 0 := by omega
      rw [ih, none, List.take_zero, List.take_zero, Nat.min_zero, Nat.min_zero]

/-- The next calls go out as long as there are nonces for all of them. -/
theorem replay_submits_of_le (a : AccountId) {n : Nat} {calls : List κ}
    (room : n + calls.length ≤ max n NonceCursor.last) :
    replay a n (calls.map submit) = (Sent.series a n calls, n + calls.length) := by
  have enough : calls.length ≤ NonceCursor.last - n := by omega
  rw [replay_submits, List.take_of_length_le enough, Nat.min_eq_left enough]

end CursorEvent

open CursorEvent (replay)

/-! ### Holders -/

namespace Holder

/-- The events of a holder's cursor at some work. A task whose wait ends submits as many of its
calls as its tracker gets new submissions. -/
def events (client : Client σ κ) (w : World σ κ) : Holder κ → Work κ → List (CursorEvent κ)
  | caller _, .submit call => [.submit call]
  | caller t, .resync =>
    match (client.nonce w.node w.now t.account).1 with
    | .ok nonce => [.read nonce]
    | .error _ => []
  | batch _ r, .resume =>
    match r.stage with
    | .waiting nonce outcome wake =>
      if wake ≤ w.now then
        let after := (r.collect client w nonce outcome).2.tracker.submissions.length
        (r.todo.take (after - r.tracker.submissions.length)).map .submit
      else []
    | _ => []
  | _, _ => []

/-- A tracker after events: its cursor stands where they lead, and the log has the calls that they
hand over. -/
structure Traced (a : AccountId) (es : List (CursorEvent κ)) (w w' : World σ κ) (t t' : Tracker) :
    Prop where
  cursor : t'.cursor.next = (replay a t.cursor.next es).2
  sentBy : w'.sentBy a = w.sentBy a ++ (replay a t.cursor.next es).1

/-- A tracker whose cursor nothing has moved. -/
theorem Traced.of_eq {a : AccountId} {w w' : World σ κ} {t t' : Tracker}
    (cursor : t'.cursor = t.cursor) (sentBy : w'.sentBy a = w.sentBy a) :
    Traced a [] w w' t t' where
  cursor := congrArg NonceCursor.next cursor
  sentBy := sentBy.trans (List.append_nil _).symm

theorem Traced.trans {a : AccountId} {es more : List (CursorEvent κ)} {w w' w'' : World σ κ}
    {t t' t'' : Tracker} (h : Traced a es w w' t t') (h' : Traced a more w' w'' t' t'') :
    Traced a (es ++ more) w w'' t t'' where
  cursor := by rw [h'.cursor, h.cursor, CursorEvent.replay_append]
  sentBy := by
    rw [h'.sentBy, h.sentBy, h.cursor, CursorEvent.replay_append, List.append_assoc]

theorem traced_submit (client : Client σ κ) (w : World σ κ) (t : Tracker) (call : κ) {h' : Holder κ}
    {t' : Tracker} (stays : ((caller t).work client w (.submit call)).holder? = some h')
    (after : h'.tracker? = some t') :
    Traced t.account [.submit call] w ((caller t).work client w (.submit call)).world t t' := by
  cases submitted : t.submit? client w call with
  | none =>
    -- there is no nonce left, so neither the log nor the cursor changes
    have full := Tracker.submit?_eq_none_iff.mp submitted
    rw [work, submitted] at stays ⊢
    cases stays
    cases after
    have unsent : replay t.account t.cursor.next [CursorEvent.submit call] =
        ([], t.cursor.next) := by
      rw [replay, if_neg (Nat.not_lt.mpr full), replay]
    exact { cursor := by rw [unsent], sentBy := by rw [unsent, List.append_nil] }
  | some p =>
    have spec := Tracker.Submitted.of_submit? submitted
    rw [work, submitted] at stays ⊢
    cases stays
    cases after
    have sent : replay t.account t.cursor.next [CursorEvent.submit call] =
        ([⟨t.account, t.cursor.next, call⟩], t.cursor.next + 1) := by
      rw [replay, if_pos spec.below, replay]
    exact { cursor := by rw [sent, spec.cursor], sentBy := by rw [sent, spec.sentBy] }

theorem traced_resync (client : Client σ κ) (w : World σ κ) (t : Tracker) {h' : Holder κ}
    {t' : Tracker} (stays : ((caller t).work client w .resync).holder? = some h')
    (after : h'.tracker? = some t') :
    Traced t.account ((caller t).events client w .resync) w ((caller t).work client w .resync).world
      t t' := by
  rw [work, Tracker.resync] at stays ⊢
  rw [events]
  rcases asked : client.nonce w.node w.now t.account with ⟨cause | nonce, node⟩
  · -- the query fails, and the cursor stays where it is
    rw [asked] at stays
    cases stays
    cases after
    exact .of_eq rfl rfl
  · rw [asked] at stays
    cases stays
    cases after
    refine { cursor := rfl, sentBy := ?_ }
    have silent :
        ({ w with node }.notify (.resynced t.account t.cursor.peek nonce)).sent = w.sent :=
      World.sent_notify _ _
    rw [World.sentBy_of_sent silent]
    exact (List.append_nil _).symm

/-- A task that goes on has done nothing at its end yet. -/
theorem ofTask_conclude {w : World σ κ} {a : AccountId} {number : Nat} {r : Runner κ}
    {h' : Holder κ} (stays : (ofTask (SignerTask.conclude w a number r)).holder? = some h') :
    h' = batch number r ∧ (ofTask (SignerTask.conclude w a number r)).world = w := by
  unfold SignerTask.conclude at stays ⊢
  split at stays
  · cases stays
    exact ⟨rfl, rfl⟩
  · cases stays
  · cases stays

theorem wake?_task (number : Nat) (r : Runner κ) :
    (task number r).wake? = match r.stage with
      | .waiting _ _ wake => some wake
      | _ => none := rfl

theorem traced_resume (client : Client σ κ) (w : World σ κ) (number : Nat) (r : Runner κ)
    {h' : Holder κ} {t' : Tracker}
    (stays : ((batch number r).work client w .resume).holder? = some h')
    (after : h'.tracker? = some t') :
    Traced r.tracker.account ((batch number r).events client w .resume) w
      ((batch number r).work client w .resume).world r.tracker t' := by
  rw [work, wake?_task] at stays ⊢
  rw [events]
  cases stage : r.stage with
  | waiting nonce outcome wake =>
    rw [stage] at stays
    by_cases ended : wake ≤ w.now
    · have resumed : (task number r).resume client w =
          SignerTask.conclude (r.collect client w nonce outcome).1 r.tracker.account number
            (r.collect client w nonce outcome).2 := by
        simp only [SignerTask.resume, task, stage]
      simp only [Option.any_some, ended, decide_true, ↓reduceIte, resumed] at stays ⊢
      -- the task goes on, so what it did is what collecting the outcome did
      obtain ⟨rfl, world⟩ := ofTask_conclude stays
      obtain rfl : (r.collect client w nonce outcome).2.tracker = t' := Option.some.inj after
      obtain ⟨k, le, submissions, cursor, room, sentBy⟩ :=
        Runner.exists_handed_collect client w r nonce outcome
      have count : (r.todo.take k).length = k := List.length_take_of_le le
      rw [← count] at room
      have sent := CursorEvent.replay_submits_of_le r.tracker.account room
      rw [submissions, Nat.add_sub_cancel_left]
      exact {
        cursor := by rw [sent, cursor, count]
        sentBy := by rw [world, sent, sentBy] }
    · -- the wait is not over yet
      simp only [Option.any_some, ended, decide_false, Bool.false_eq_true, ↓reduceIte] at stays ⊢
      cases stays
      cases after
      exact .of_eq rfl rfl
  | finished =>
    rw [stage] at stays
    cases stays
    cases after
    exact .of_eq rfl rfl
  | overflowed =>
    rw [stage] at stays
    cases stays
    cases after
    exact .of_eq rfl rfl

/-- While a tracker stays open, its cursor and its calls go by the events of its holder. -/
theorem traced_work (client : Client σ κ) (w : World σ κ) {h h' : Holder κ} (x : Work κ)
    {t t' : Tracker} (before : h.tracker? = some t)
    (stays : (h.work client w x).holder? = some h') (after : h'.tracker? = some t') :
    Traced h.account (h.events client w x) w (h.work client w x).world t t' := by
  cases h with
  | opening a job => cases before
  | caller t₀ =>
    obtain rfl : t₀ = t := Option.some.inj before
    cases x with
    | submit call => exact traced_submit client w t₀ call stays after
    | resync => exact traced_resync client w t₀ stays after
    | deliver index reports =>
      cases stays
      cases after
      exact .of_eq rfl rfl
    | close => cases stays
    | drop => cases stays
    | answer =>
      cases stays
      cases after
      exact .of_eq rfl rfl
    | resume =>
      cases stays
      cases after
      exact .of_eq rfl rfl
  | batch number r =>
    obtain rfl : r.tracker = t := Option.some.inj before
    cases x with
    | resume => exact traced_resume client w number r stays after
    | drop => cases stays
    | _ =>
      cases stays
      cases after
      exact .of_eq rfl rfl

end Holder

namespace Pool

/-! ### Moves -/

/-- The events of an account's cursor at a move. -/
def events (client : Client σ κ) (p : Pool σ κ) (a : AccountId) : Move σ κ → List (CursorEvent κ)
  | .work b x =>
    if b = a then
      match p.holder? a with
      | some h => h.events client p.world x
      | none => []
    else []
  | _ => []

/-- The events of an account's cursor along moves. -/
def eventsAlong (client : Client σ κ) (a : AccountId) :
    Pool σ κ → List (Move σ κ) → List (CursorEvent κ)
  | _, [] => []
  | p, m :: rest => p.events client a m ++ eventsAlong client a (p.step client m) rest

/-- What somebody does with one account leaves the holder of another in its place. -/
theorem find?_others {p : Pool σ κ} {a b : AccountId} (ne : a ≠ b) :
    (p.others b).find? (fun h => h.account = a) = p.holder? a := by
  unfold others holder?
  induction p.holders with
  | nil => rfl
  | cons h rest ih =>
    by_cases same : h.account = b
    · simp [same, ne.symm]
    · simp [List.find?_cons, same, ih]

/-- A claim leaves the trackers that are open as they are. -/
theorem traced_claim {p : Pool σ κ} (leased : p.Leased) {a b : AccountId} (job : Option (Job κ))
    {t : Tracker} (before : p.tracker? a = some t) :
    (p.claim b job).tracker? a = some t ∧ (p.claim b job).world.sentBy a = p.world.sentBy a := by
  by_cases held : b ∈ p.world.registry.held
  · rw [claim_of_mem held]
    exact ⟨before, rfl⟩
  · rw [claim_of_not_mem held]
    refine ⟨?_, rfl⟩
    -- the claim is for another account, as this one's tracker is open
    have ne : b ≠ a := by
      rintro rfl
      rw [leased.mem_iff, ← holder?_eq_none_iff] at held
      rw [tracker?, held] at before
      cases before
    rw [← before, tracker?, tracker?, holder?, holder?]
    simp [Holder.account, ne]

/-- What the holder of another account does leaves the tracker as it is. -/
theorem traced_work_of_ne (client : Client σ κ) (p : Pool σ κ) {a b : AccountId} (ne : a ≠ b)
    (x : Work κ) :
    (p.work client b x).tracker? a = p.tracker? a ∧
      (p.work client b x).world.sentBy a = p.world.sentBy a := by
  cases found : p.holder? b with
  | none =>
    rw [work, found]
    exact ⟨rfl, rfl⟩
  | some h =>
    rw [work_of_holder? client found]
    obtain ⟨account, -⟩ := exists_of_holder? found
    have kept := Holder.kept client p.world h x
    rw [account] at kept
    refine ⟨?_, kept.grows.sentBy_of_ne ne⟩
    rw [tracker?, tracker?, holder?]
    rcases kept.ledger with ⟨h', stays, account', -⟩ | ⟨ended, -⟩
    · have other : h'.account ≠ a := account'.trans_ne ne.symm
      simp [stays, other, find?_others ne]
    · simp [ended, find?_others ne]

/-- What the holder of the account does takes its tracker along the events of that work. -/
theorem traced_work_self (client : Client σ κ) {p : Pool σ κ} (leased : p.Leased) {a : AccountId}
    (x : Work κ) {t t' : Tracker} (before : p.tracker? a = some t)
    (after : (p.work client a x).tracker? a = some t') :
    Holder.Traced a (p.events client a (.work a x)) p.world (p.work client a x).world t t' := by
  obtain ⟨h, found, open_⟩ := Option.bind_eq_some_iff.mp before
  obtain ⟨account, split⟩ := exists_of_holder? found
  have kept := Holder.kept client p.world h x
  rw [work_of_holder? client found] at after ⊢
  rw [events, if_pos rfl, found]
  -- the holder stays, and what it did is recorded for its tracker
  rcases kept.ledger with ⟨h', stays, account', -⟩ | ⟨ended, -⟩
  · have front : (h.work client p.world x).holder?.toList ++ p.others a = h' :: p.others a := by
      rw [stays]
      rfl
    obtain ⟨found', -⟩ := holder?_cons (p := ⟨_, _, _⟩) front (account'.trans account)
    have after' : h'.tracker? = some t' := by
      rw [tracker?, found'] at after
      exact after
    have traced := Holder.traced_work client p.world x open_ stays after'
    rw [account] at traced
    exact traced
  · -- nobody else holds the account, so there is no tracker after the move
    have alone : a ∉ (p.others a).map (·.account) := by
      have accounts := (split.map Holder.account).nodup_iff.mp leased.nodup
      rw [List.map_cons, account] at accounts
      exact (List.nodup_cons.mp accounts).1
    have gone : (p.others a).find? (fun h => h.account = a) = none := by
      rw [List.find?_eq_none]
      intro h' mem same
      exact alone (List.mem_map.mpr ⟨h', mem, of_decide_eq_true same⟩)
    rw [tracker?, holder?, ended] at after
    simp [gone] at after

/-- Time passes, and the cursor stays where it is. -/
theorem traced_advance (client : Client σ κ) {p : Pool σ κ} (later : Nat) {a : AccountId}
    {t : Tracker} (before : p.tracker? a = some t) :
    (∃ t', (p.advance client later).tracker? a = some t' ∧ t'.cursor = t.cursor) ∧
      (p.advance client later).world.sentBy a = p.world.sentBy a := by
  refine ⟨?_, World.sentBy_of_sent ?_ a⟩
  · obtain ⟨h, found, open_⟩ := Option.bind_eq_some_iff.mp before
    have found' : (p.advance client later).holder? a =
        some (h.settle client.errors later) := by
      rw [holder?, advance, List.find?_map]
      simp only [Function.comp_def, Holder.account_settle]
      rw [← holder?, found]
      rfl
    rw [tracker?, found']
    cases h with
    | opening b job => cases open_
    | caller t₀ =>
      cases open_
      exact ⟨t.settle client.errors later, rfl, rfl⟩
    | batch number r => exact ⟨t, open_, rfl⟩
  · exact World.sent_notifyAt _ _

/-- A wait comes to its end, and the cursor stays where it is. -/
theorem traced_await (client : Client σ κ) {p : Pool σ κ} {a b : AccountId} (index : Nat)
    (level : Level) (timeout : Nat) {t : Tracker} (before : p.tracker? a = some t) :
    (∃ t', (p.await client b index level timeout).tracker? a = some t' ∧ t'.cursor = t.cursor) ∧
      (p.await client b index level timeout).world.sentBy a = p.world.sentBy a := by
  unfold await
  split
  · exact ⟨⟨t, before, rfl⟩, rfl⟩
  · rename_i s _
    have advanced := traced_advance client (s.wait client.errors level p.world.now timeout).2 before
    dsimp only
    split
    · exact ⟨advanced.1, (World.sentBy_of_sent (World.sent_notify _ _) a).trans advanced.2⟩
    · exact advanced

/-- **What a move does to the cursor of an open tracker**, and to the calls of its account. -/
theorem traced_step (client : Client σ κ) {p : Pool σ κ} (leased : p.Leased) (m : Move σ κ)
    {a : AccountId} {t t' : Tracker} (before : p.tracker? a = some t)
    (after : (p.step client m).tracker? a = some t') :
    Holder.Traced a (p.events client a m) p.world (p.step client m).world t t' := by
  cases m with
  | claim b job =>
    obtain ⟨same, sentBy⟩ := traced_claim leased (b := b) job before
    obtain rfl : t = t' := Option.some.inj (same.symm.trans after)
    exact .of_eq rfl sentBy
  | work b x =>
    by_cases same : b = a
    · obtain rfl := same
      exact traced_work_self client leased x before after
    · obtain ⟨tracker, sentBy⟩ := traced_work_of_ne client p (Ne.symm same) x
      obtain rfl : t = t' := Option.some.inj (before.symm.trans (tracker.symm.trans after))
      rw [events, if_neg same]
      exact .of_eq rfl sentBy
  | await b index level timeout =>
    rw [step] at after ⊢
    obtain ⟨⟨t₁, open_, cursor⟩, sentBy⟩ := traced_await client index level timeout before (b := b)
    obtain rfl : t₁ = t' := Option.some.inj (open_.symm.trans after)
    exact .of_eq cursor sentBy
  | pass ms =>
    obtain ⟨⟨t₁, open_, cursor⟩, sentBy⟩ := traced_advance client (p.world.now + ms) before
    obtain rfl : t₁ = t' := Option.some.inj (open_.symm.trans after)
    exact .of_eq cursor sentBy
  | outside node aborts =>
    obtain rfl : t = t' := Option.some.inj (before.symm.trans after)
    exact .of_eq rfl rfl

/-- What moves do to the cursor of a tracker that stays open. -/
theorem traced_play (client : Client σ κ) {p : Pool σ κ} (leased : p.Leased)
    (moves : List (Move σ κ)) {a : AccountId} {t : Tracker} (before : p.tracker? a = some t)
    (stays : ∀ k, ((p.play client (moves.take k)).tracker? a).isSome) :
    ∃ t', (p.play client moves).tracker? a = some t' ∧
      Holder.Traced a (eventsAlong client a p moves) p.world (p.play client moves).world t t' := by
  induction moves generalizing p t with
  | nil => exact ⟨t, before, .of_eq rfl rfl⟩
  | cons m rest ih =>
    -- the tracker is the same one after the first move, as it has not been closed in between
    obtain ⟨t₁, next⟩ := Option.isSome_iff_exists.mp (stays 1)
    have first := traced_step client leased m before next
    obtain ⟨t', after, later⟩ := ih (leased_step client leased m) next fun k => stays (k + 1)
    exact ⟨t', after, first.trans later⟩

/-- At the largest nonce a tracker hands nothing over and keeps its cursor. -/
theorem submit_of_last (client : Client σ κ) {p : Pool σ κ} {a : AccountId} {t : Tracker}
    (open_ : p.tracker? a = some t) (full : NonceCursor.last ≤ t.cursor.next) (call : κ) :
    (p.step client (.work a (.submit call))).world = p.world ∧
      (p.step client (.work a (.submit call))).tracker? a = some t := by
  obtain ⟨h, found, tracker⟩ := Option.bind_eq_some_iff.mp open_
  have idle : h.work client p.world (.submit call) = { world := p.world, holder? := some h } := by
    cases h with
    | opening b job => rfl
    | caller t₀ =>
      obtain rfl : t₀ = t := Option.some.inj tracker
      rw [Holder.work, Tracker.submit?_eq_none_iff.mpr full]
    | batch number r => rfl
  rw [step, work_of_holder? client found, idle]
  refine ⟨rfl, ?_⟩
  rw [tracker?, (holder?_cons rfl (exists_of_holder? found).1).1]
  exact tracker

/-- **The nonces of one tracker.** While it stays open, whatever else happens in the process, its
calls go out once each, in order, under the nonces that its cursor counts from the last one read; of
calls in a row the nonces are consecutive, and at the largest nonce nothing is handed over. -/
theorem nonces_play (client : Client σ κ) (node : σ) (prior moves : List (Move σ κ)) {a : AccountId}
    {t : Tracker} (opened : ((start node).play client prior).tracker? a = some t)
    (stays : ∀ k,
      ((((start node).play client prior).play client (moves.take k)).tracker? a).isSome) :
    let p := (start node).play client prior
    let p' := p.play client moves
    let es := eventsAlong client a p moves
    let n := t.cursor.next
    ∃ t', p'.tracker? a = some t' ∧
      t'.cursor.next = (replay a n es).2 ∧
      p'.world.sentBy a = p.world.sentBy a ++ (replay a n es).1 ∧
      (∀ calls : List κ, es = calls.map .submit →
        (replay a n es).1.map (·.nonce) = List.range' n (min calls.length (NonceCursor.last - n)) ∧
          (replay a n es).1.map (·.call) = calls.take (NonceCursor.last - n) ∧
          t'.cursor.next = n + min calls.length (NonceCursor.last - n)) ∧
      (NonceCursor.last ≤ t'.cursor.next → ∀ call, t'.submit? client p'.world call = none ∧
        (p'.step client (.work a (.submit call))).world = p'.world ∧
        (p'.step client (.work a (.submit call))).tracker? a = some t') := by
  intro p p' es n
  obtain ⟨t', after, traced⟩ :=
    traced_play client (leased_play client node prior) moves opened stays
  refine ⟨t', after, traced.cursor, traced.sentBy, ?_, ?_⟩
  · intro calls submits
    have sent := CursorEvent.replay_submits a n calls
    rw [← submits] at sent
    rw [traced.cursor, sent, Sent.map_nonce_series, Sent.map_call_series, List.length_take,
      Nat.min_comm]
    exact ⟨rfl, rfl, rfl⟩
  · intro full call
    exact ⟨Tracker.submit?_eq_none_iff.mpr full, submit_of_last client after full call⟩

/-- A call that is handed over, a nonce that is read again, and another call. -/
theorem nonces_play_resynced :
    let client : Client Nat String :=
      { nonce := fun chain _ _ => (.ok chain, chain)
        handOver := fun chain _ _ _ _ => ({}, chain)
        errors := fun _ _ => none }
    let a := AccountId.filled 1
    let p := (start 7).play client [.claim a none, .work a .answer]
    let moves : List (Move Nat String) :=
      [.work a (.submit "x"), .work a .resync, .pass 5, .work a (.submit "y")]
    ∃ t', (p.play client moves).tracker? a = some t' ∧ t'.cursor.next = 8 ∧
      (p.play client moves).world.sentBy a = [⟨a, 7, "x"⟩, ⟨a, 7, "y"⟩] := by
  intro client a p moves
  have stays : ∀ k, ((p.play client (moves.take k)).tracker? a).isSome := by
    rintro (_ | _ | _ | _ | k)
    case succ.succ.succ.succ =>
      rw [List.take_of_length_le (Nat.le_add_left 4 k)]
      rfl
    all_goals rfl
  obtain ⟨t', open_, cursor, sent, -⟩ := nonces_play client 7 [.claim a none, .work a .answer] moves
    (t := { account := a, cursor := ⟨7⟩ }) rfl stays
  refine ⟨t', open_, cursor, sent⟩

end Pool

end ShellSale
