import Mathlib.Data.List.Basic
import ShellSale.Proofs.Pipeline.Steps

/-!
## Nodes that count finalized calls

Such a node starts every account at some nonce and adds the calls of the account that are in
finalized blocks. When a call gets into one, if ever, is up to the node: it goes by the receipts
that it keeps of the calls it was given.

* `Client.Counts` says of a node that it counts in this way.
* `Client.Counts.spared`: work for one account does not show in what the node tells another.
* `Client.Counts.booked`: the receipts are those of the calls handed over, whatever happens.
-/

namespace ShellSale

variable {σ κ : Type}

/-- What a node keeps of a call: whose it is, and from when on it is in a finalized block, if it
ever gets there. -/
structure Receipt where
  account : AccountId
  final : Option Nat

namespace Receipt

/-- Whether the call is in a finalized block. -/
def isFinal (now : Nat) (r : Receipt) : Bool :=
  r.final.any fun at_ => at_ ≤ now

/-- The receipts of an account's calls. -/
def ofAccount (a : AccountId) (rs : List Receipt) : List Receipt :=
  rs.filter fun r => r.account = a

/-- How many calls of an account are in finalized blocks. -/
def finals (a : AccountId) (now : Nat) (rs : List Receipt) : Nat :=
  (ofAccount a rs).countP (isFinal now)

theorem finals_le (a : AccountId) (now : Nat) (rs : List Receipt) :
    finals a now rs ≤ (ofAccount a rs).length :=
  List.countP_le_length

/-- All calls of an account are in finalized blocks if as many are as there are. -/
theorem finals_eq_length_iff {a : AccountId} {now : Nat} {rs : List Receipt} :
    finals a now rs = (ofAccount a rs).length ↔
      ∀ r ∈ rs, r.account = a → r.isFinal now = true := by
  rw [finals, List.countP_eq_length]
  simp only [ofAccount, List.mem_filter, decide_eq_true_eq, and_imp]

end Receipt

/-- A node that counts: the nonce of an account is the one it started with, plus the number of its
calls in finalized blocks. -/
structure Client.Counts (client : Client σ κ) (start : AccountId → Nat)
    (receipts : σ → List Receipt) : Prop where
  nonce_eq : ∀ {node : σ} {now : Nat} {a : AccountId} {nonce : Nat},
    (client.nonce node now a).1 = .ok nonce →
      nonce = start a + Receipt.finals a now (receipts node)
  receipts_nonce : ∀ (node : σ) (now : Nat) (a : AccountId),
    receipts (client.nonce node now a).2 = receipts node
  receipts_handOver : ∀ (node : σ) (now : Nat) (a : AccountId) (nonce : Nat) (call : κ),
    ∃ final, receipts (client.handOver node now a nonce call).2 = receipts node ++ [⟨a, final⟩]

namespace World

/-! ### Accounts that are left alone -/

/-- Nothing has happened between two worlds that concerns an account, and no time has passed. -/
structure Spared (receipts : σ → List Receipt) (a : AccountId) (w w' : World σ κ) : Prop where
  now : w'.now = w.now
  sentBy : w'.sentBy a = w.sentBy a
  receipts : Receipt.ofAccount a (receipts w'.node) = Receipt.ofAccount a (receipts w.node)

/-! ### Calls and receipts -/

/-- The calls handed over between two worlds, each with its receipt. -/
def Booked (receipts : σ → List Receipt) (w w' : World σ κ) : Prop :=
  ∃ new : List (Sent κ × Receipt), w'.sent = w.sent ++ new.map (·.1) ∧
    receipts w'.node = receipts w.node ++ new.map (·.2) ∧ ∀ e ∈ new, e.1.account = e.2.account

variable {receipts : σ → List Receipt} {a : AccountId} {w w' w'' : World σ κ}

theorem Spared.refl (receipts : σ → List Receipt) (a : AccountId) (w : World σ κ) :
    Spared receipts a w w :=
  ⟨rfl, rfl, rfl⟩

theorem Spared.trans (h : Spared receipts a w w') (h' : Spared receipts a w' w'') :
    Spared receipts a w w'' where
  now := h'.now.trans h.now
  sentBy := h'.sentBy.trans h.sentBy
  receipts := h'.receipts.trans h.receipts

/-- An account that is left alone has as many calls in finalized blocks as before. -/
theorem Spared.finals_eq (h : Spared receipts a w w') :
    Receipt.finals a w'.now (receipts w'.node) = Receipt.finals a w.now (receipts w.node) := by
  rw [Receipt.finals, Receipt.finals, h.now, h.receipts]

/-- Nothing was handed over. -/
theorem Booked.of_eq (sent : w'.sent = w.sent) (kept : receipts w'.node = receipts w.node) :
    Booked receipts w w' :=
  ⟨[], by rw [sent, List.map_nil, List.append_nil], by rw [kept, List.map_nil, List.append_nil],
    by simp⟩

theorem Booked.trans (h : Booked receipts w w') (h' : Booked receipts w' w'') :
    Booked receipts w w'' := by
  obtain ⟨new, sent, kept, own⟩ := h
  obtain ⟨more, sent', kept', own'⟩ := h'
  refine ⟨new ++ more, ?_, ?_, ?_⟩
  · rw [sent', sent, List.map_append, List.append_assoc]
  · rw [kept', kept, List.map_append, List.append_assoc]
  · intro e mem
    rcases List.mem_append.mp mem with mem | mem
    · exact own e mem
    · exact own' e mem

/-- The node gets one receipt of an account for each call that the account hands over. -/
theorem Booked.length_ofAccount (h : Booked receipts w w') {new : List (Sent κ)}
    (sent : w'.sent = w.sent ++ new) (a : AccountId) :
    (Receipt.ofAccount a (receipts w'.node)).length =
      (Receipt.ofAccount a (receipts w.node)).length +
        (new.filter fun s => s.account = a).length := by
  obtain ⟨booked, sent', kept, own⟩ := h
  obtain rfl : new = booked.map (·.1) := List.append_cancel_left (sent.symm.trans sent')
  -- call and receipt are of one account, so as many of either are of `a`
  have paired : ((booked.map (·.2)).filter fun r => r.account = a).length =
      ((booked.map (·.1)).filter fun s => s.account = a).length := by
    rw [← List.countP_eq_length_filter, ← List.countP_eq_length_filter, List.countP_map,
      List.countP_map]
    refine List.countP_congr ?_
    intro e mem
    simp only [Function.comp_apply, own e mem]
  rw [Receipt.ofAccount, Receipt.ofAccount, kept, List.filter_append, List.length_append, paired]

end World

namespace Client.Counts

variable {client : Client σ κ} {start : AccountId → Nat} {receipts : σ → List Receipt}
  {a b : AccountId} {w w' : World σ κ}

/-- One step of work for another account. -/
theorem spared_of_step (counts : client.Counts start receipts) (ne : b ≠ a)
    (h : World.Step client b w w') : World.Spared receipts a w w' := by
  cases h with
  | ask => exact ⟨rfl, rfl, congrArg _ (counts.receipts_nonce ..)⟩
  | claim => exact ⟨rfl, rfl, rfl⟩
  | release => exact ⟨rfl, rfl, rfl⟩
  | tell ns => exact ⟨rfl, World.sentBy_of_sent (World.sent_notifyAt w ns) a, rfl⟩
  | handOver nonce call =>
    obtain ⟨final, kept⟩ := counts.receipts_handOver w.node w.now b nonce call
    refine { now := rfl, sentBy := ?_, receipts := ?_ }
    · rw [World.sentBy, World.sentBy, World.sent_handOver, List.filter_append]
      simp [ne]
    · show Receipt.ofAccount a (receipts (client.handOver w.node w.now b nonce call).2) = _
      rw [kept, Receipt.ofAccount, List.filter_append]
      simp [Receipt.ofAccount, ne]

/-- **Work for one account does not show in what the node tells another.** -/
theorem spared (counts : client.Counts start receipts) (ne : b ≠ a)
    (h : World.Steps client b w w') : World.Spared receipts a w w' := by
  induction h with
  | refl => exact .refl receipts a w
  | tail _ step ih => exact ih.trans (counts.spared_of_step ne step)

theorem booked_of_move (counts : client.Counts start receipts) (h : World.Move client w w') :
    World.Booked receipts w w' := by
  cases h with
  | work step =>
    rename_i b
    cases step with
    | ask => exact .of_eq rfl (counts.receipts_nonce ..)
    | claim => exact .of_eq rfl rfl
    | release => exact .of_eq rfl rfl
    | tell ns => exact .of_eq (World.sent_notifyAt w ns) rfl
    | handOver nonce call =>
      obtain ⟨final, kept⟩ := counts.receipts_handOver w.node w.now b nonce call
      exact ⟨[(⟨b, nonce, call⟩, ⟨b, final⟩)], World.sent_handOver .., kept, by simp⟩
  | pass wake => exact .of_eq rfl rfl
  | number count => exact .of_eq rfl rfl
  | line l => exact .of_eq (World.sent_line w l) rfl

/-- **The receipts of a node that counts** are those of the calls handed over, whatever happens. -/
theorem booked (counts : client.Counts start receipts) (h : World.Course client w w') :
    World.Booked receipts w w' := by
  induction h with
  | refl => exact .of_eq rfl rfl
  | tail _ move ih => exact ih.trans (counts.booked_of_move move)

end Client.Counts

end ShellSale
