import ShellSale.Proofs.Pool.Basic

/-!
## The registry of a pool

The registry holds the accounts of all trackers that are open or being opened, each once. A move
claims at most one account, or gives at most one back, and then it is the mover's own.

* `Pool.Shift` is all that a move can do to the accounts; `shift_step` finds it for every move.
* `Pool.Leased` is the invariant; it holds at the start and after every move (`leased_play`).
* `Pool.registry_play` is what follows for opening and ending trackers.
-/

namespace ShellSale

variable {σ κ : Type}

namespace Pool

/-! ### What a move does to the accounts -/

/-- What a move does to the registry and to the accounts that are alive. -/
inductive Shift (p p' : Pool σ κ) : Prop where
  /-- No account is claimed or given back. -/
  | same (registry : p'.world.registry = p.world.registry) (alive : p'.alive.Perm p.alive)
  /-- A free account is claimed. -/
  | claimed (a : AccountId) (free : a ∉ p.world.registry.held)
      (held : p'.world.registry.held = a :: p.world.registry.held) (alive : p'.alive = a :: p.alive)
  /-- The holder of an account has ended. -/
  | released (a : AccountId) (registry : p'.world.registry = p.world.registry.release a)
      (alive : p.alive.Perm (a :: p'.alive))

theorem shift_claim (p : Pool σ κ) (a : AccountId) (job : Option (Job κ)) :
    Shift p (p.claim a job) := by
  by_cases held : a ∈ p.world.registry.held
  · rw [claim_of_mem held]
    exact .same rfl (.refl _)
  · rw [claim_of_not_mem held]
    exact .claimed a held rfl rfl

theorem shift_work (client : Client σ κ) (p : Pool σ κ) (a : AccountId) (x : Work κ) :
    Shift p (p.work client a x) := by
  cases found : p.holder? a with
  | none =>
    rw [work, found]
    exact .same rfl (.refl _)
  | some h =>
    rw [work_of_holder? client found]
    -- the accounts that are alive are the holder's and those of all the others
    obtain ⟨account, split⟩ := exists_of_holder? found
    have before : p.alive.Perm (a :: (p.others a).map (·.account)) := by
      have accounts := split.map Holder.account
      rw [List.map_cons, account] at accounts
      exact accounts
    have kept := Holder.kept client p.world h x
    rw [account] at kept
    rcases kept.ledger with ⟨h', stays, account', registry⟩ | ⟨ended, registry⟩
    · refine .same registry ?_
      simp only [alive, stays, Option.toList_some, List.singleton_append, List.map_cons, account']
      exact before.symm
    · refine .released a registry ?_
      simp only [alive, ended, Option.toList_none, List.nil_append]
      exact before

theorem shift_await (client : Client σ κ) (p : Pool σ κ) (a : AccountId) (index : Nat)
    (level : Level) (timeout : Nat) : Shift p (p.await client a index level timeout) := by
  unfold await
  split
  · exact .same rfl (.refl _)
  · rename_i s _
    have advanced := (alive_advance client p
      (s.wait client.errors level p.world.now timeout).2).symm
    dsimp only
    split
    · exact .same rfl (.of_eq advanced.symm)
    · exact .same rfl (.of_eq advanced.symm)

theorem shift_step (client : Client σ κ) (p : Pool σ κ) (m : Move σ κ) :
    Shift p (p.step client m) := by
  cases m with
  | claim a job => exact shift_claim p a job
  | work a x => exact shift_work client p a x
  | await a index level timeout => exact shift_await client p a index level timeout
  | pass ms => exact .same rfl (.of_eq (alive_advance client p _))
  | outside node aborts => exact .same rfl (.refl _)

/-! ### The invariant -/

/-- The registry holds the accounts that are alive, each once. -/
structure Leased (p : Pool σ κ) : Prop where
  held : p.world.registry.held.Perm p.alive
  nodup : p.alive.Nodup

theorem leased_start (node : σ) : (start node : Pool σ κ).Leased where
  held := .refl _
  nodup := List.nodup_nil

theorem Leased.mem_iff {p : Pool σ κ} (h : p.Leased) {a : AccountId} :
    a ∈ p.world.registry.held ↔ a ∈ p.alive :=
  h.held.mem_iff

theorem Leased.shift {p p' : Pool σ κ} (h : p.Leased) (shift : Shift p p') : p'.Leased := by
  cases shift with
  | same registry alive =>
    refine { held := ?_, nodup := alive.nodup_iff.mpr h.nodup }
    rw [registry]
    exact h.held.trans alive.symm
  | claimed a free held alive =>
    rw [h.mem_iff] at free
    refine { held := ?_, nodup := ?_ }
    · rw [held, alive]
      exact h.held.cons a
    · rw [alive]
      exact List.nodup_cons.mpr ⟨free, h.nodup⟩
  | released a registry alive =>
    refine { held := ?_, nodup := ?_ }
    · have erased := (h.held.trans alive).erase a
      rw [List.erase_cons_head] at erased
      rw [registry]
      exact erased
    · exact (List.nodup_cons.mp (alive.nodup_iff.mp h.nodup)).2

theorem leased_step (client : Client σ κ) {p : Pool σ κ} (h : p.Leased) (m : Move σ κ) :
    (p.step client m).Leased :=
  h.shift (shift_step client p m)

theorem Leased.play {p : Pool σ κ} (h : p.Leased) (client : Client σ κ) (moves : List (Move σ κ)) :
    (p.play client moves).Leased := by
  induction moves generalizing p with
  | nil => exact h
  | cons m rest ih => exact ih (leased_step client h m)

/-- Every pool that moves lead to is in order. -/
theorem leased_play (client : Client σ κ) (node : σ) (moves : List (Move σ κ)) :
    ((start node).play client moves).Leased :=
  (leased_start node).play client moves

/-! ### Opening and ending -/

theorem open_eq_alreadyOpen_iff (client : Client σ κ) (w : World σ κ) (a : AccountId) :
    (Tracker.open_ client w a).1 = .error (.alreadyOpen a) ↔ a ∈ w.registry.held := by
  by_cases held : a ∈ w.registry.held
  · rw [Tracker.open_of_mem client held]
    exact iff_of_true rfl held
  · rw [Tracker.open_of_not_mem client held]
    refine iff_of_false ?_ held
    rcases client.nonce w.node w.now a with ⟨cause | nonce, node⟩
    · simp
    · simp

/-- A holder that has ended gave just its own account back. -/
theorem Shift.ended {p p' : Pool σ κ} (shift : Shift p p') {a : AccountId} (before : a ∈ p.alive)
    (after : a ∉ p'.alive) :
    p'.world.registry = p.world.registry.release a ∧ p.alive.Perm (a :: p'.alive) := by
  cases shift with
  -- only a release makes an account disappear, and then it is the one released
  | same registry alive => exact absurd (alive.mem_iff.mpr before) after
  | claimed b free held alive =>
    rw [alive] at after
    exact absurd (List.mem_cons_of_mem _ before) after
  | released b registry alive =>
    rcases List.mem_cons.mp (alive.mem_iff.mp before) with rfl | still
    · exact ⟨registry, alive⟩
    · exact absurd still after

/-- **The registry is the ledger of the trackers that are alive.** At every point of every order of
moves it holds the accounts of the trackers that are open or being opened, and nothing else, each
once. Just the accounts in it are refused, without asking the node and without a change to any
tracker; an opening that the node fails leaves the registry as it was; and whichever move ends a
tracker, it takes out that tracker's account alone. -/
theorem registry_play (client : Client σ κ) (node : σ) (moves : List (Move σ κ)) :
    let p := (start node).play client moves
    (∀ a, a ∈ p.world.registry.held ↔ a ∈ p.alive) ∧
      p.world.registry.held.Nodup ∧ p.alive.Nodup ∧
      (∀ a, (Tracker.open_ client p.world a).1 = .error (.alreadyOpen a) ↔ a ∈ p.alive) ∧
      (∀ a ∈ p.alive,
        (∀ asked : Client σ κ, Tracker.open_ asked p.world a = (.error (.alreadyOpen a), p.world)) ∧
        ∀ job, p.step client (.claim a job) =
          { p with ended := (job.map (·.failed a (.alreadyOpen a))).toList ++ p.ended }) ∧
      (∀ a cause, (Tracker.open_ client p.world a).1 = .error (.chainUnavailable a cause) →
        (Tracker.open_ client p.world a).2.registry = p.world.registry) ∧
      (∀ m, ∀ a ∈ p.alive, a ∉ (p.step client m).alive →
        (p.step client m).world.registry = p.world.registry.release a ∧
          ∀ b, b ∈ (p.step client m).alive ↔ b ∈ p.alive ∧ b ≠ a) ∧
      ∀ batches mode options,
        (runAcross client p.world batches mode options).2.registry.held.Perm
          p.world.registry.held := by
  intro p
  have leased : p.Leased := leased_play client node moves
  refine ⟨fun a => leased.mem_iff, leased.held.nodup_iff.mpr leased.nodup, leased.nodup, ?_, ?_, ?_,
    ?_, fun batches mode options => held_runAcross client p.world batches mode options⟩
  · intro a
    rw [open_eq_alreadyOpen_iff, leased.mem_iff]
  · intro a alive
    have held := leased.mem_iff.mpr alive
    exact ⟨fun asked => Tracker.open_of_mem asked held, fun job => claim_of_mem held job⟩
  · intro a cause failed
    exact Tracker.registry_of_open_error (Prod.ext failed rfl)
  · intro m a before after
    obtain ⟨registry, alive⟩ := (shift_step client p m).ended before after
    refine ⟨registry, ?_⟩
    intro b
    rw [alive.mem_iff, List.mem_cons]
    constructor
    · intro still
      exact ⟨Or.inr still, fun same => after (same ▸ still)⟩
    · rintro ⟨rfl | still, other⟩
      · exact absurd rfl other
      · exact still

end Pool

end ShellSale
