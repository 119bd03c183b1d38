import ShellSale.Proofs.Sale.Steps
import ShellSale.Sale.Phase

/-!
## The steps that a phase takes

A phase goes from step to step as long as the steps succeed. Its visits are the points it comes to:
what is left to do there, and the world in which it is done.

* `Phase.visits_order`: what has happened when a phase comes to a step.
* `Phase.run_eq_ok_iff`: a phase succeeds exactly if every step that it comes to does.
* `Phase.run_alike`: the outcomes of the users' calls decide nothing.
-/

namespace ShellSale

variable {σ τ : Type}

/-- A point of a phase: what is left to do, and the world in which it is done. -/
structure Visit (σ : Type) where
  world : World σ Call
  phase : Phase

/-- What a phase learns at a visit: not the outcomes of the users' calls, but everything else. -/
inductive Reply where
  | nothing
  | step (result : Except Halt Unit)
  | collection (answer : Except ChainStateError (Option Nat))
  | era (answer : Except ChainStateError Nat)
  | owned (answer : Except ChainStateError (List Nat))
  | food (answer : Except ChainStateError FeedCounts)

namespace Visit

/-- What the phase learns. -/
def reply (sale : Sale σ) : Visit σ → Reply
  | ⟨w, .admin step signer mode calls _⟩ =>
    .step (sale.admin w step (sale.keyring.account signer) mode calls).1
  | ⟨w, .users step calls _⟩ => .step ((sale.users w step .pipelined calls).1.map fun _ => ())
  | ⟨w, .askCollection _⟩ => .collection (ChainState.collection sale.storage w.node w.now)
  | ⟨w, .askEra _⟩ => .era (ChainState.era sale.storage w.node w.now)
  | ⟨w, .askOwned owner collection _⟩ =>
    .owned (ChainState.owned sale.storage w.node w.now (sale.keyring.account owner) collection)
  | ⟨w, .askFood era _⟩ => .food (ChainState.food sale.storage w.node w.now era)
  | _ => .nothing

/-- The world after the step. -/
def after (sale : Sale σ) : Visit σ → World σ Call
  | ⟨w, .admin step signer mode calls _⟩ =>
    (sale.admin w step (sale.keyring.account signer) mode calls).2
  | ⟨w, .users step calls _⟩ => (sale.users w step .pipelined calls).2
  | ⟨w, .say text _⟩ => Sale.say w .info text
  | v => v.world

/-- The calls that the step hands over. -/
def handed (sale : Sale σ) (v : Visit σ) : List (Sent Call) :=
  (v.after sale).sent.drop v.world.sent.length

/-- The step does what it is about. An administrative step has all its calls accepted; the tasks of
a step of the users end without a hard error or a panic, whatever becomes of the calls; a question
is answered. -/
def Succeeds (sale : Sale σ) : Visit σ → Prop
  | ⟨_, .done⟩ | ⟨_, .say ..⟩ => True
  | ⟨_, .fail _⟩ | ⟨_, .overflow _⟩ => False
  | ⟨w, .admin step signer mode calls _⟩ =>
    ∃ t w' r, sale.Met w step (sale.keyring.account signer) mode calls t w' r
  | ⟨w, .users step calls _⟩ =>
    ∀ t ∈ (sale.userTasks w step .pipelined calls).2, ∃ outcomes, t.state = .ended (.ok outcomes)
  | ⟨w, .askCollection _⟩ => ∃ x, ChainState.collection sale.storage w.node w.now = .ok x
  | ⟨w, .askEra _⟩ => ∃ x, ChainState.era sale.storage w.node w.now = .ok x
  | ⟨w, .askOwned owner collection _⟩ =>
    ∃ x, ChainState.owned sale.storage w.node w.now (sale.keyring.account owner) collection = .ok x
  | ⟨w, .askFood era _⟩ => ∃ x, ChainState.food sale.storage w.node w.now era = .ok x

/-- The step leaves nothing open. All calls of an administrative step have been handed over and are
final; all tasks of a step of the users have ended, so nobody waits any more. -/
def Settled (sale : Sale σ) : Visit σ → Prop
  | ⟨w, .admin step signer mode calls _⟩ =>
    ∃ t w' r, sale.adminBatch w step (sale.keyring.account signer) mode calls = .ok (t, w', r) ∧
      sale.Settled w (sale.admin w step (sale.keyring.account signer) mode calls).2
        (sale.keyring.account signer) calls t r
  | ⟨w, .users step calls _⟩ =>
    ∀ t ∈ (sale.userTasks w step .pipelined calls).2, ∃ outcomes, t.state = .ended (.ok outcomes)
  | _ => True

end Visit

namespace Phase

/-- All visits of a phase, in order. -/
def visits (sale : Sale σ) (w : World σ Call) : Phase → List (Visit σ)
  | done => [⟨w, done⟩]
  | fail e => [⟨w, fail e⟩]
  | overflow o => [⟨w, overflow o⟩]
  | admin step signer mode calls next =>
    ⟨w, admin step signer mode calls next⟩ ::
      match sale.admin w step (sale.keyring.account signer) mode calls with
      | (.ok (), w) => visits sale w next
      | (.error _, _) => []
  | users step calls next =>
    ⟨w, users step calls next⟩ ::
      match sale.users w step .pipelined calls with
      | (.ok _, w) => visits sale w next
      | (.error _, _) => []
  | say text next => ⟨w, say text next⟩ :: visits sale (Sale.say w .info text) next
  | askCollection next =>
    ⟨w, askCollection next⟩ ::
      match ChainState.collection sale.storage w.node w.now with
      | .ok x => visits sale w (next x)
      | .error _ => []
  | askEra next =>
    ⟨w, askEra next⟩ ::
      match ChainState.era sale.storage w.node w.now with
      | .ok x => visits sale w (next x)
      | .error _ => []
  | askOwned owner collection next =>
    ⟨w, askOwned owner collection next⟩ ::
      match ChainState.owned sale.storage w.node w.now (sale.keyring.account owner) collection with
      | .ok x => visits sale w (next x)
      | .error _ => []
  | askFood era next =>
    ⟨w, askFood era next⟩ ::
      match ChainState.food sale.storage w.node w.now era with
      | .ok x => visits sale w (next x)
      | .error _ => []

/-! ### One step -/

/-- What is left to do after a step, given what the phase has learned; or how the phase ends. -/
def resume : Phase → Reply → Except (Except Halt Unit) Phase
  | fail e, _ => .error (.error (.error e))
  | overflow o, _ => .error (.error (.overflow o))
  | admin _ _ _ _ next, .step (.ok ()) => .ok next
  | users _ _ next, .step (.ok ()) => .ok next
  | admin .., .step (.error halt) => .error (.error halt)
  | users .., .step (.error halt) => .error (.error halt)
  | say _ next, _ => .ok next
  | askCollection next, .collection (.ok x) => .ok (next x)
  | askEra next, .era (.ok x) => .ok (next x)
  | askOwned _ _ next, .owned (.ok x) => .ok (next x)
  | askFood _ next, .food (.ok x) => .ok (next x)
  | askCollection _, .collection (.error e) => .error (.error (.error (.chainState e)))
  | askEra _, .era (.error e) => .error (.error (.error (.chainState e)))
  | askOwned .., .owned (.error e) => .error (.error (.error (.chainState e)))
  | askFood .., .food (.error e) => .error (.error (.error (.chainState e)))
  | _, _ => .error (.ok ())

theorem visits_eq (sale : Sale σ) (w : World σ Call) (p : Phase) :
    p.visits sale w = ⟨w, p⟩ ::
      match p.resume (Visit.reply sale ⟨w, p⟩) with
      | .ok q => q.visits sale (Visit.after sale ⟨w, p⟩)
      | .error _ => [] := by
  cases p with
  | done => rfl
  | fail e => rfl
  | overflow o => rfl
  | admin step signer mode calls next =>
    rw [visits, Visit.reply, Visit.after]
    rcases sale.admin w step (sale.keyring.account signer) mode calls with ⟨_ | _, w'⟩ <;> rfl
  | users step calls next =>
    rw [visits, Visit.reply, Visit.after]
    rcases sale.users w step .pipelined calls with ⟨_ | _, w'⟩ <;> rfl
  | say text next => rfl
  | askCollection next =>
    rw [visits, Visit.reply]
    cases ChainState.collection sale.storage w.node w.now <;> rfl
  | askEra next =>
    rw [visits, Visit.reply]
    cases ChainState.era sale.storage w.node w.now <;> rfl
  | askOwned owner collection next =>
    rw [visits, Visit.reply]
    cases ChainState.owned sale.storage w.node w.now (sale.keyring.account owner) collection <;> rfl
  | askFood era next =>
    rw [visits, Visit.reply]
    cases ChainState.food sale.storage w.node w.now era <;> rfl

theorem run_eq (sale : Sale σ) (w : World σ Call) (p : Phase) :
    p.run sale w =
      match p.resume (Visit.reply sale ⟨w, p⟩) with
      | .ok q => q.run sale (Visit.after sale ⟨w, p⟩)
      | .error result => (result, Visit.after sale ⟨w, p⟩) := by
  cases p with
  | done => rfl
  | fail e => rfl
  | overflow o => rfl
  | admin step signer mode calls next =>
    rw [run, Visit.reply, Visit.after]
    rcases sale.admin w step (sale.keyring.account signer) mode calls with ⟨_ | _, w'⟩ <;> rfl
  | users step calls next =>
    rw [run, Visit.reply, Visit.after]
    rcases sale.users w step .pipelined calls with ⟨_ | _, w'⟩ <;> rfl
  | say text next => rfl
  | askCollection next =>
    rw [run, Visit.reply]
    cases ChainState.collection sale.storage w.node w.now <;> rfl
  | askEra next =>
    rw [run, Visit.reply]
    cases ChainState.era sale.storage w.node w.now <;> rfl
  | askOwned owner collection next =>
    rw [run, Visit.reply]
    cases ChainState.owned sale.storage w.node w.now (sale.keyring.account owner) collection <;> rfl
  | askFood era next =>
    rw [run, Visit.reply]
    cases ChainState.food sale.storage w.node w.now era <;> rfl

/-- What may be left of a phase after its first step. -/
inductive Child : Phase → Phase → Prop where
  | admin {step : String} {signer : AccountName} {mode : Mode} {calls : List Call} {next : Phase} :
    Child (.admin step signer mode calls next) next
  | users {step : String} {calls : List (AccountName × Call)} {next : Phase} :
    Child (.users step calls next) next
  | say {text : String} {next : Phase} : Child (.say text next) next
  | askCollection {next : Option Nat → Phase} (x : Option Nat) :
    Child (.askCollection next) (next x)
  | askEra {next : Nat → Phase} (x : Nat) : Child (.askEra next) (next x)
  | askOwned {owner : AccountName} {collection : Nat} {next : List Nat → Phase} (x : List Nat) :
    Child (.askOwned owner collection next) (next x)
  | askFood {era : Nat} {next : FeedCounts → Phase} (x : FeedCounts) :
    Child (.askFood era next) (next x)

theorem child_of_resume {p q : Phase} {r : Reply} (h : p.resume r = .ok q) : Child p q := by
  unfold resume at h
  split at h
  all_goals cases h
  all_goals constructor

/-- **Induction along a run.** What holds of a phase in a world if it holds of what is left after
its first step, holds of every phase in every world. -/
theorem run_induction (sale : Sale σ) {motive : World σ Call → Phase → Prop}
    (step : ∀ w p, (∀ q, p.resume (Visit.reply sale ⟨w, p⟩) = .ok q →
      motive (Visit.after sale ⟨w, p⟩) q) → motive w p) (w : World σ Call) (p : Phase) :
    motive w p := by
  induction p generalizing w with
  | done | fail | overflow =>
    apply step
    intro q left
    cases child_of_resume left
  | admin s signer mode calls next ih | users s calls next ih | say text next ih =>
    apply step
    intro q left
    cases child_of_resume left
    exact ih _
  | askCollection next ih | askEra next ih | askOwned owner collection next ih
  | askFood era next ih =>
    apply step
    intro q left
    cases child_of_resume left
    exact ih _ _

/-- A step does what it is about exactly if the phase does not halt at it. -/
theorem succeeds_iff (sale : Sale σ) (w : World σ Call) (p : Phase) :
    Visit.Succeeds sale ⟨w, p⟩ ↔
      ∀ halt, p.resume (Visit.reply sale ⟨w, p⟩) ≠ .error (.error halt) := by
  cases p with
  | done | fail | overflow | say => simp [Visit.Succeeds, resume]
  | admin step signer mode calls next =>
    rw [Visit.Succeeds, ← Sale.admin_eq_ok_iff, Visit.reply]
    cases (sale.admin w step (sale.keyring.account signer) mode calls).1 with
    | ok u => simp [resume]
    | error halt => simp [resume]
  | users step calls next =>
    rw [Visit.Succeeds, ← Sale.users_eq_ok_iff, Visit.reply]
    cases (sale.users w step .pipelined calls).1 with
    | ok outcomes => simp [resume, Except.map]
    | error halt => simp [resume, Except.map]
  | askCollection next =>
    rw [Visit.Succeeds, Visit.reply]
    cases ChainState.collection sale.storage w.node w.now <;> simp [resume]
  | askEra next =>
    rw [Visit.Succeeds, Visit.reply]
    cases ChainState.era sale.storage w.node w.now <;> simp [resume]
  | askOwned owner collection next =>
    rw [Visit.Succeeds, Visit.reply]
    cases ChainState.owned sale.storage w.node w.now (sale.keyring.account owner) collection <;>
      simp [resume]
  | askFood era next =>
    rw [Visit.Succeeds, Visit.reply]
    cases ChainState.food sale.storage w.node w.now era <;> simp [resume]

/-- A step after which there is something left does what it is about. -/
theorem succeeds_of_resume {sale : Sale σ} {w : World σ Call} {p q : Phase}
    (left : p.resume (Visit.reply sale ⟨w, p⟩) = .ok q) : Visit.Succeeds sale ⟨w, p⟩ := by
  rw [succeeds_iff, left]
  intro halt halted
  cases halted

/-- **When a phase succeeds.** -/
theorem run_eq_ok_iff (sale : Sale σ) (w : World σ Call) (p : Phase) :
    (p.run sale w).1 = .ok () ↔ ∀ v ∈ p.visits sale w, v.Succeeds sale := by
  induction w, p using run_induction sale with
  | step w p ih =>
    rw [run_eq, visits_eq, List.forall_mem_cons]
    cases left : p.resume (Visit.reply sale ⟨w, p⟩) with
    | ok q =>
      -- the first step has succeeded, so the rest decides
      rw [ih q left]
      exact (and_iff_right (succeeds_of_resume left)).symm
    | error result =>
      rw [succeeds_iff, left]
      cases result with
      | ok u => simp
      | error halt => simp

/-! ### The order of the steps -/

/-- What the log gets in a step. -/
theorem growsTo_after (sale : Sale σ) (v : Visit σ) :
    World.GrowsTo (fun _ => True) v.world (v.after sale) := by
  obtain ⟨w, p⟩ := v
  cases p with
  | admin step signer mode calls next => exact (Sale.growsTo_admin ..).mono fun _ _ => trivial
  | users step calls next => exact (Sale.growsTo_users ..).mono fun _ _ => trivial
  | say text next => exact World.growsTo_record w trivial
  | _ => exact .refl _ w

theorem sent_after (sale : Sale σ) (v : Visit σ) :
    (v.after sale).sent = v.world.sent ++ v.handed sale := by
  obtain ⟨new, sent⟩ := (growsTo_after sale v).exists_sent_eq
  rw [Visit.handed, sent, List.drop_left]

/-- The calls that a phase hands over are those of its steps. -/
theorem sent_run (sale : Sale σ) (w : World σ Call) (p : Phase) :
    (p.run sale w).2.sent = w.sent ++ (p.visits sale w).flatMap (·.handed sale) := by
  induction w, p using run_induction sale with
  | step w p ih =>
    have first := sent_after sale ⟨w, p⟩
    rw [run_eq, visits_eq, List.flatMap_cons]
    cases left : p.resume (Visit.reply sale ⟨w, p⟩) with
    | ok q => exact (ih q left).trans (by rw [first, List.append_assoc])
    | error result => simpa using first

/-- A step after which there is something left leaves nothing open. -/
theorem settled_of_resume {sale : Sale σ} (level : sale.options.level = .finalized)
    {w : World σ Call} {p q : Phase} (left : p.resume (Visit.reply sale ⟨w, p⟩) = .ok q) :
    Visit.Settled sale ⟨w, p⟩ := by
  have succeeds := succeeds_of_resume left
  cases p with
  | admin step signer mode calls next =>
    obtain ⟨t, w', r, met⟩ := succeeds
    exact ⟨t, w', r, met.batch, met.settled level⟩
  | users step calls next => exact succeeds
  | _ => trivial

/-- **The order of the steps.** When a phase comes to a step, just the calls of the steps before
have been handed over, and those steps leave nothing open. -/
theorem visits_order (sale : Sale σ) (level : sale.options.level = .finalized) (w : World σ Call)
    (p : Phase) {before later : List (Visit σ)} {v : Visit σ}
    (visits : p.visits sale w = before ++ v :: later) :
    w.now ≤ v.world.now ∧ v.world.sent = w.sent ++ before.flatMap (·.handed sale) ∧
      ∀ u ∈ before, u.Settled sale ∧ (u.after sale).now ≤ v.world.now := by
  induction w, p using run_induction sale generalizing before with
  | step w p ih =>
    rw [visits_eq] at visits
    cases before with
    | nil =>
      obtain ⟨rfl, -⟩ := List.cons.inj visits
      simp
    | cons u rest =>
      obtain ⟨rfl, tail⟩ := List.cons.inj visits
      cases left : p.resume (Visit.reply sale ⟨w, p⟩) with
      | error result =>
        -- the phase ended at its first step, so there is no later one
        rw [left] at tail
        simp at tail
      | ok q =>
        rw [left] at tail
        obtain ⟨now, sent, settled⟩ := ih q left tail
        have first := sent_after sale ⟨w, p⟩
        have passed := (growsTo_after sale ⟨w, p⟩).now_le
        rw [List.forall_mem_cons, List.flatMap_cons]
        refine ⟨passed.trans now, ?_, ⟨settled_of_resume level left, now⟩, settled⟩
        rw [sent, first, List.append_assoc]

/-! ### Two runs -/

/-- Two runs learn the same wherever they come to the same point after as many steps; what becomes
of the users' calls may differ. -/
def LearnAlike (sale : Sale σ) (other : Sale τ) (vs : List (Visit σ)) (vs' : List (Visit τ)) :
    Prop :=
  ∀ (i : Nat) (v : Visit σ) (v' : Visit τ), vs[i]? = some v → vs'[i]? = some v' →
    v.phase = v'.phase → v.reply sale = v'.reply other

/-- **The outcomes of the users' calls decide nothing.** If two runs of a phase learn the same apart
from those outcomes, they take the same steps and end alike. -/
theorem run_alike (sale : Sale σ) (other : Sale τ) (w : World σ Call) (w' : World τ Call)
    (p : Phase) (alike : LearnAlike sale other (p.visits sale w) (p.visits other w')) :
    (p.visits sale w).map (·.phase) = (p.visits other w').map (·.phase) ∧
      (p.run sale w).1 = (p.run other w').1 := by
  induction w, p using run_induction sale generalizing w' with
  | step w p ih =>
    rw [visits_eq sale, visits_eq other] at alike ⊢
    rw [run_eq sale, run_eq other]
    -- both runs are at the same point, so they learn the same there
    have same : Visit.reply sale ⟨w, p⟩ = Visit.reply other ⟨w', p⟩ :=
      alike 0 ⟨w, p⟩ ⟨w', p⟩ rfl rfl rfl
    rw [← same] at alike ⊢
    cases left : p.resume (Visit.reply sale ⟨w, p⟩) with
    | error result => exact ⟨rfl, rfl⟩
    | ok q =>
      rw [left] at alike
      obtain ⟨phases, result⟩ := ih q left (Visit.after other ⟨w', p⟩) fun i => alike (i + 1)
      refine ⟨?_, result⟩
      rw [List.map_cons, List.map_cons]
      exact congrArg (p :: ·) phases

end Phase

end ShellSale
