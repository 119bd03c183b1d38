import ShellSale.Proofs.Batch.Provenance
import ShellSale.Proofs.Sale.Groups
import ShellSale.Proofs.Sale.Heeding

/-!
## Where the calls of a phase come from

A phase hands over no call that is not written in it, and none under another account than the one it
is written for. This holds for every keyring and however the phase ends, so what the calls of a
phase have in common can be read off the phase.

* `Phase.Lists` says which calls of which accounts are written in a phase.
* `Visit.handsOver_after`: what a step hands over is written in it.
* `Phase.handsOver_run` is the main result.
-/

namespace ShellSale

variable {σ : Type}

/-! ### Steps -/

theorem mem_ownOf_iff {α : Type} {name : AccountName} {items : List (AccountName × α)} {x : α} :
    x ∈ ownOf name items ↔ (name, x) ∈ items := by
  simp [ownOf]

namespace Sale

/-- Before a step has a tracker, it says what it is about and hands over nothing. -/
theorem course_opened {sale : Sale σ} {w w₁ : World σ Call} {text : String} {a : AccountId}
    {t : Tracker}
    (h : Tracker.open_ sale.client (say w .info text) a = (.ok t, w₁)) :
    World.Course sale.client w w₁ ∧ w₁.sent = w.sent := by
  have steps := (Tracker.steps_open sale.client (say w .info text) a).course
  have sent := Tracker.sent_open sale.client (say w .info text) a
  rw [h] at steps sent
  exact ⟨.head (.line _) steps, sent.trans (World.sent_line w _)⟩

variable (sale : Sale σ) (w : World σ Call) (step : String) (mode : Mode)

/-- An administrative step hands over no call but its own. -/
theorem handsOver_admin (signer : AccountId) (calls : List Call) :
    World.HandsOver (fun a call => a = signer ∧ call ∈ calls) w
      (sale.admin w step signer mode calls).2 := by
  cases batch : sale.adminBatch w step signer mode calls with
  | error e =>
    -- the step ends before its batch
    refine .of_sent _ ?_
    rw [world_admin_of_error batch, Tracker.sent_open]
    exact World.sent_line w _
  | ok p =>
    obtain ⟨t, w', r⟩ := p
    obtain ⟨w₁, opened, ran⟩ := exists_of_adminBatch batch
    obtain ⟨-, -, account, -, -⟩ := Tracker.open_eq_ok opened
    have before : World.HandsOver (fun a call => a = signer ∧ call ∈ calls) w w₁ :=
      .of_sent _ (course_opened opened).2
    have handed := handsOver_runBatch sale.client w₁ t mode (strict sale.options) calls
    rw [ran, account] at handed
    exact (before.trans handed).trans (.of_sent _ (sent_admin batch))

/-- A step of the users hands over no call but those of its accounts. -/
theorem handsOver_users (calls : List (AccountName × Call)) :
    World.HandsOver (fun a call => ∃ name, (name, call) ∈ calls ∧ a = sale.keyring.account name) w
      (sale.users w step mode calls).2 := by
  have said : World.HandsOver
      (fun a call => ∃ b ∈ batches sale.keyring calls, a = b.account ∧ call ∈ b.calls) w
      (say w .info ("👥 " ++ step ++ " for " ++
        toString (batches sale.keyring calls).length ++ " accounts...")) :=
    .of_sent _ (World.sent_line w _)
  have handed := said.trans (handsOver_of_rounds
    (runs_tasksOf sale.client _ (batches sale.keyring calls) mode sale.options).rounds)
  refine (handed.trans (.of_sent _ (sale.sent_users w step mode calls))).mono ?_
  rintro a call ⟨b, mem, rfl, listed⟩
  obtain ⟨name, -, rfl⟩ := mem_batches_iff.mp mem
  exact ⟨name, mem_ownOf_iff.mp listed, rfl⟩

end Sale

/-! ### Phases -/

/-- Whether a call of an account is written in a phase, behind some answers of the chain. -/
def Phase.Lists (k : Keyring) (a : AccountId) (call : Call) : Phase → Prop
  | .done | .fail _ | .overflow _ => False
  | .admin _ signer _ calls next => a = k.account signer ∧ call ∈ calls ∨ next.Lists k a call
  | .users _ calls next =>
    (∃ name, (name, call) ∈ calls ∧ a = k.account name) ∨ next.Lists k a call
  | .say _ next => next.Lists k a call
  | .askCollection next => ∃ x, (next x).Lists k a call
  | .askEra next => ∃ x, (next x).Lists k a call
  | .askOwned _ _ next => ∃ x, (next x).Lists k a call
  | .askFood _ next => ∃ x, (next x).Lists k a call

namespace Phase

variable {k : Keyring} {a : AccountId} {call : Call}

/-- What is left of a phase is written in it. -/
theorem Child.lists {p q : Phase} (child : Child p q) (h : q.Lists k a call) :
    p.Lists k a call := by
  cases child with
  | admin => exact Or.inr h
  | users => exact Or.inr h
  | say => exact h
  | askCollection x => exact ⟨x, h⟩
  | askEra x => exact ⟨x, h⟩
  | askOwned x => exact ⟨x, h⟩
  | askFood x => exact ⟨x, h⟩

end Phase

/-- **A step** hands over calls that are written in it. -/
theorem Visit.handsOver_after (sale : Sale σ) (w : World σ Call) (p : Phase) :
    World.HandsOver (fun a call => p.Lists sale.keyring a call) w (Visit.after sale ⟨w, p⟩) := by
  cases p with
  | admin step signer mode calls next =>
    exact (sale.handsOver_admin w step mode _ calls).mono fun _ _ => Or.inl
  | users step calls next =>
    exact (sale.handsOver_users w step .pipelined calls).mono fun _ _ => Or.inl
  | say text next => exact .of_sent _ (World.sent_line w _)
  | _ => exact .of_sent _ rfl

/-- **A phase** hands over no call that is not written in it for its account, however it ends. -/
theorem Phase.handsOver_run (sale : Sale σ) (w : World σ Call) (p : Phase) :
    World.HandsOver (fun a call => p.Lists sale.keyring a call) w (p.run sale w).2 := by
  induction w, p using run_induction sale with
  | step w p ih =>
    have first := Visit.handsOver_after sale w p
    -- what is left is written in the phase, whatever the chain has answered
    rw [run_eq]
    cases left : p.resume (Visit.reply sale ⟨w, p⟩) with
    | ok q => exact first.trans ((ih q left).mono fun _ _ => (child_of_resume left).lists)
    | error result => exact first

end ShellSale
