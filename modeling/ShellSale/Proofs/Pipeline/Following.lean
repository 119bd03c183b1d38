import ShellSale.Proofs.Pipeline.Steps

/-!
## What becomes of the calls of an account

A node gives the reports on a call when it takes the call, each with its moment. If it keeps them in
mind, then the calls of an account can be told apart at any moment into those that may still land
and those that have ended as invalid or dropped.

* `Client.Recalls` says of a node that it keeps in mind the reports that it gives.
* `World.followed` are the calls of an account, each with its moment and its reports.
* `Client.Recalls.exists_gets`: calls only come to those there were, whatever happens.
-/

namespace ShellSale

variable {σ κ : Type}

/-- A node that keeps in mind the reports that it gives on the calls of each account. -/
structure Client.Recalls (client : Client σ κ) (feeds : σ → AccountId → List Feed) : Prop where
  feeds_nonce : ∀ (node : σ) (now : Nat) (a : AccountId),
    feeds (client.nonce node now a).2 = feeds node
  feeds_handOver : ∀ (node : σ) (now : Nat) (a b : AccountId) (nonce : Nat) (call : κ),
    feeds (client.handOver node now b nonce call).2 a = feeds node a ++
      if b = a then [(client.handOver node now b nonce call).1.feed] else []

/-- A call with the moment at which it was handed over and the reports on it. -/
structure Followed (κ : Type) where
  moment : Nat
  sent : Sent κ
  feed : Feed

namespace Followed

/-- The call as it is watched from its hand-over on. -/
def submission (f : Followed κ) : Submission :=
  { account := f.sent.account, nonce := f.sent.nonce, serial := 0, feed := f.feed }

/-- The status of the call at a moment. -/
def statusAt (table : ErrorTable) (now : Nat) (f : Followed κ) : Status :=
  (f.submission.settle table now).watch.status

/-- The call has ended by a moment without getting into a block: it was invalid, or it was dropped.
-/
def IsVoid (table : ErrorTable) (now : Nat) (f : Followed κ) : Prop :=
  ∃ message, f.statusAt table now = .invalid message ∨ f.statusAt table now = .dropped message

end Followed

namespace World

variable {feeds : σ → AccountId → List Feed} {a : AccountId} {w w' w'' : World σ κ}

/-- The calls of an account, each with its moment and the reports on it. -/
def followed (feeds : σ → AccountId → List Feed) (a : AccountId) (w : World σ κ) :
    List (Followed κ) :=
  ((w.callsBy a).zip (feeds w.node a)).map fun c => ⟨c.1.1, c.1.2, c.2⟩

/-- The node has the reports on each call of the account in mind. -/
def Covered (feeds : σ → AccountId → List Feed) (a : AccountId) (w : World σ κ) : Prop :=
  (w.callsBy a).length = (feeds w.node a).length

/-- All calls of the account are followed. -/
theorem Covered.map_sent (h : Covered feeds a w) :
    (w.followed feeds a).map (·.sent) = w.sentBy a := by
  rw [followed, List.map_map, ← map_callsBy, ← List.map_fst_zip (Nat.le_of_eq h), List.map_map,
    List.map_fst_zip (Nat.le_of_eq h)]
  rfl

/-- Between two worlds, the account gets the calls `new` and the node keeps the reports on them in
mind. -/
structure Gets (feeds : σ → AccountId → List Feed) (a : AccountId) (w w' : World σ κ)
    (new : List (Followed κ)) : Prop where
  calls : w'.callsBy a = w.callsBy a ++ new.map fun f => (f.moment, f.sent)
  feeds : feeds w'.node a = feeds w.node a ++ new.map (·.feed)

/-- The account gets no call. -/
theorem Gets.none (calls : w'.callsBy a = w.callsBy a) (kept : feeds w'.node a = feeds w.node a) :
    Gets feeds a w w' [] where
  calls := calls.trans (List.append_nil _).symm
  feeds := kept.trans (List.append_nil _).symm

theorem Gets.append {new more : List (Followed κ)} (h : Gets feeds a w w' new)
    (h' : Gets feeds a w' w'' more) : Gets feeds a w w'' (new ++ more) where
  calls := by rw [h'.calls, h.calls, List.map_append, List.append_assoc]
  feeds := by rw [h'.feeds, h.feeds, List.map_append, List.append_assoc]

theorem Gets.covered {new : List (Followed κ)} (h : Gets feeds a w w' new)
    (covered : Covered feeds a w) : Covered feeds a w' := by
  rw [Covered, h.calls, h.feeds, List.length_append, List.length_append, covered, List.length_map,
    List.length_map]

/-- The calls that the account gets come to those that are followed. -/
theorem Gets.followed_eq {new : List (Followed κ)} (h : Gets feeds a w w' new)
    (covered : Covered feeds a w) : w'.followed feeds a = w.followed feeds a ++ new := by
  have kept : ((new.map fun f => (f.moment, f.sent)).zip (new.map (·.feed))).map
      (fun c => (⟨c.1.1, c.1.2, c.2⟩ : Followed κ)) = new := by
    rw [List.zip_map', List.map_map]
    exact List.map_id' new
  rw [followed, h.calls, h.feeds, List.zip_append covered, List.map_append, kept, followed]

end World

namespace Client.Recalls

variable {client : Client σ κ} {feeds : σ → AccountId → List Feed} {w w' : World σ κ}

theorem exists_gets_move (recalls : client.Recalls feeds) (h : World.Move client w w')
    (a : AccountId) : ∃ new, World.Gets feeds a w w' new := by
  cases h with
  | work step =>
    rename_i b
    cases step with
    | ask => exact ⟨[], .none rfl (congrFun (recalls.feeds_nonce ..) a)⟩
    | claim => exact ⟨[], .none rfl rfl⟩
    | release => exact ⟨[], .none rfl rfl⟩
    | tell ns => exact ⟨[], .none (World.callsBy_notifyAt w ns a) rfl⟩
    | handOver nonce call =>
      have calls := World.callsBy_handOver client w a b nonce call
      have kept := recalls.feeds_handOver w.node w.now a b nonce call
      by_cases mine : b = a
      · rw [if_pos mine] at calls kept
        exact ⟨[⟨w.now, ⟨b, nonce, call⟩, (client.handOver w.node w.now b nonce call).1.feed⟩],
          calls, kept⟩
      · rw [if_neg mine, List.append_nil] at calls kept
        exact ⟨[], .none calls kept⟩
  | pass wake => exact ⟨[], .none rfl rfl⟩
  | number count => exact ⟨[], .none rfl rfl⟩
  | line l => exact ⟨[], .none (World.callsBy_line w l a) rfl⟩

/-- **Calls only come to those there were**, whatever happens, and the node keeps the reports on
them in mind. -/
theorem exists_gets (recalls : client.Recalls feeds) (h : World.Course client w w')
    (a : AccountId) : ∃ new, World.Gets feeds a w w' new := by
  induction h with
  | refl => exact ⟨[], .none rfl rfl⟩
  | tail _ move ih =>
    obtain ⟨new, gets⟩ := ih
    obtain ⟨more, gets'⟩ := recalls.exists_gets_move move a
    exact ⟨new ++ more, gets.append gets'⟩

end Client.Recalls

end ShellSale
