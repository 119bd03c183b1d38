import ShellSale.Proofs.Sale.Serving

/-!
## Tickets and the accounts that use them

The overlord's tickets are signed for names of the plan, and the calls that carry them are signed by
accounts that are looked up by name again, after they were grouped. A call and the ticket in it are
written together in the phase, so they stay together whatever the order of the plan is.

* `Phase.lists_whitelistPurchase_iff`: which purchases are written in the phase.
* `whitelistMessage_eq_iff`: the message of an account tells the account.
* `Phase.whitelistPurchase_tickets` is the main result.
-/

namespace ShellSale

variable {σ : Type}

/-- The whitelist message of an account: 32 bytes of the account, then a 1. -/
theorem whitelistMessage_eq (a : AccountId) :
    whitelistMessage a = a.toList ++ [1] ∧ a.toList.length = 32 :=
  ⟨rfl, a.length_toList⟩

/-- The message of an account tells the account. -/
theorem whitelistMessage_eq_iff {a b : AccountId} :
    whitelistMessage a = whitelistMessage b ↔ a = b :=
  ⟨whitelistMessage_injective, congrArg whitelistMessage⟩

/-- A signature verifies only under the key that made it, for the message it was made for. -/
theorem Signature.eq_of_verify {signer signer' : AccountId} {message message' : List UInt8}
    (h : (made signer message).verify signer' message' = true) :
    signer' = signer ∧ message' = message := by
  have same : made signer message = .made signer' message' := by simpa [verify] using h
  injection same with signer_eq message_eq
  exact ⟨signer_eq.symm, message_eq.symm⟩

namespace Phase

/-- The purchases with a ticket that are written in the phase: each account of the plan buys with
the ticket of that account. -/
theorem lists_whitelistPurchase_iff {k : Keyring} {p : SalePlan} {a : AccountId}
    {ticket : Signature} {race : Race} {career : Career} :
    (whitelistPurchase k p).Lists k a (.buyPrimeOriginOfShell ticket race career) ↔
      ticket = whitelistTicket (k.account .overlord) a ∧
        ∃ c ∈ p.whitelistPurchases,
          k.account c.account = a ∧ c.race = race ∧ c.career = career := by
  constructor
  · rintro (⟨-, listed⟩ | ⟨name, listed, rfl⟩ | none)
    · -- the first step only sets a switch
      cases List.mem_singleton.mp listed
    · obtain ⟨c, mem, same⟩ := List.mem_map.mp listed
      obtain ⟨rfl, call⟩ := Prod.mk.inj same
      injection call with ticket_eq race_eq career_eq
      exact ⟨ticket_eq.symm, c, mem, rfl, race_eq, career_eq⟩
    · cases none
  · rintro ⟨rfl, c, mem, rfl, rfl, rfl⟩
    exact Or.inr (Or.inl ⟨c.account, List.mem_map.mpr ⟨c, mem, rfl⟩, rfl⟩)

/-- **Every purchase carries the ticket of its own account.** A purchase that the phase hands over
for an account is one that the plan has for it, and carries the overlord's signature over just the
whitelist message of the account. If signatures verify only under the key that made them and only
for the message that they were made for, then the ticket verifies under no other key and for the
message of no other account. -/
theorem whitelistPurchase_tickets (sale : Sale σ) (p : SalePlan) (w : World σ Call)
    (verifies : Signature → AccountId → List UInt8 → Prop)
    (ideal : ∀ signer message signer' message', verifies (.made signer message) signer' message' →
      signer' = signer ∧ message' = message) :
    let q := (whitelistPurchase sale.keyring p).run sale w
    let overlord := sale.keyring.account .overlord
    (∀ a b, whitelistMessage a = whitelistMessage b ↔ a = b) ∧
    ∃ new, q.2.sent = w.sent ++ new ∧
      ∀ s ∈ new, ∀ ticket race career, s.call = .buyPrimeOriginOfShell ticket race career →
        ticket = .made overlord (s.account.toList ++ [1]) ∧ s.account.toList.length = 32 ∧
        (∃ c ∈ p.whitelistPurchases, sale.keyring.account c.account = s.account ∧
          c.race = race ∧ c.career = career) ∧
        (∀ signer message, verifies ticket signer message →
          signer = overlord ∧ message = whitelistMessage s.account) ∧
        ∀ signer a, verifies ticket signer (whitelistMessage a) →
          signer = overlord ∧ a = s.account := by
  intro q overlord
  obtain ⟨new, sent, listed⟩ := handsOver_run sale w (whitelistPurchase sale.keyring p)
  refine ⟨fun _ _ => whitelistMessage_eq_iff, new, sent, ?_⟩
  intro s mem ticket race career purchase
  -- a purchase that was handed over is one of the phase
  have written := listed s mem
  rw [purchase, lists_whitelistPurchase_iff] at written
  obtain ⟨rfl, planned⟩ := written
  obtain ⟨message_eq, length⟩ := whitelistMessage_eq s.account
  have only : ∀ signer message, verifies (whitelistTicket overlord s.account) signer message →
      signer = overlord ∧ message = whitelistMessage s.account :=
    fun signer message => ideal _ _ signer message
  refine ⟨congrArg (Signature.made overlord) message_eq, length, planned, only, ?_⟩
  intro signer a verified
  obtain ⟨made, message⟩ := only signer (whitelistMessage a) verified
  exact ⟨made, whitelistMessage_eq_iff.mp message⟩

/-- Bob is whitelisted twice. His second purchase carries the overlord's ticket for him, which
verifies under no other key and for the message of no other account. -/
theorem whitelistPurchase_tickets_twice :
    let sale : Sale Unit :=
      { client :=
          { nonce := fun _ _ _ => (.ok 5, ())
            handOver := fun _ _ _ nonce _ =>
              ({ feed := [(0, .event (.finalized (.ofNat nonce) []))] }, ())
            errors := fun _ _ => none }
        storage :=
          { collection := fun _ _ => .ok none, era := fun _ _ => .ok 0
            owned := fun _ _ _ _ => .ok [], food := fun _ _ _ => .ok [] }
        keyring := ⟨fun name => .ofNat name.index⟩
        options := { timeout := 1000 } }
    let p : SalePlan :=
      { whitelistPurchases :=
          [⟨.bob, .cyborg, .web3Monk⟩, ⟨.bob, .pandroid, .web3Monk⟩] }
    let bob := sale.keyring.account .bob
    let overlord := sale.keyring.account .overlord
    let w : World Unit Call := { node := () }
    let q := (whitelistPurchase sale.keyring p).run sale w
    (∀ signer message signer' message',
      (Signature.made signer message).verify signer' message' = true →
        signer' = signer ∧ message' = message) ∧
    ∃ s ∈ q.2.sent, s.account = bob ∧
      s.call = .buyPrimeOriginOfShell (whitelistTicket overlord bob) .pandroid .web3Monk ∧
      ∀ signer a, (whitelistTicket overlord bob).verify signer (whitelistMessage a) = true →
        signer = overlord ∧ a = bob := by
  intro sale p bob overlord w q
  have ideal : ∀ signer message signer' message',
      (Signature.made signer message).verify signer' message' = true →
        signer' = signer ∧ message' = message :=
    fun _ _ _ _ => Signature.eq_of_verify
  have served : sale.Served 2 :=
    { unsignalled := rfl
      distinct := Keyring.injective_of_collision? (by decide)
      nonces := ⟨fun _ _ _ => ⟨5, (), rfl, by decide⟩⟩
      collection := fun _ _ => ⟨_, rfl⟩
      era := fun _ _ => ⟨_, rfl⟩
      owned := fun _ _ _ _ => ⟨_, rfl⟩
      food := fun _ _ _ => ⟨_, rfl⟩ }
  have unhindered : sale.Unhindered q :=
    unhindered_of_served served rfl (within_whitelistPurchase _ (by decide) (by decide))
  -- the switch is set, so the purchases come next, and Bob makes both of his
  obtain ⟨u, outcome, nonce, s, set, opened⟩ := exists_decree_run unhindered
  rw [if_pos (set.isAccepted fun _ _ _ => ⟨_, _, rfl, rfl⟩)] at opened
  have unhindered' := unhindered
  rw [show q = _ from opened] at unhindered'
  obtain ⟨u', turn, bought⟩ := exists_turn_run served.distinct unhindered'
  obtain ⟨first, subs, outcomes, made⟩ := turn.each .bob
  let second : Sent Call :=
    ⟨bob, first + 1, .buyPrimeOriginOfShell (whitelistTicket overlord bob) .pandroid .web3Monk⟩
  have handed : second ∈ q.2.sent := by
    have mem : second ∈ u'.sentBy bob := by
      rw [made.sentBy]
      exact List.mem_append_right _ (List.mem_cons_of_mem _ List.mem_cons_self)
    rw [show q = _ from opened.trans bought]
    exact (List.mem_filter.mp mem).1
  obtain ⟨-, new, sent, tickets⟩ := whitelistPurchase_tickets sale p w
    (fun ticket signer message => ticket.verify signer message = true) ideal
  rw [show q.2.sent = new from sent] at handed
  obtain ⟨-, -, -, -, only⟩ := tickets second handed _ _ _ rfl
  exact ⟨ideal, second, sent ▸ handed, rfl, rfl, only⟩

end Phase

end ShellSale
