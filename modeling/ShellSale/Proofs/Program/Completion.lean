import ShellSale.Program.Exit
import ShellSale.Proofs.Sale.Visits

/-!
## How a run of a phase ends

Only the end of a run that succeeds tells the log that the phase is complete.

* `Phase.underway_phase`: no phase tells the log so of its own.
* `CommandLine.perform_spec`: what a run has done when it comes to a step, when it succeeds, and
  what that depends on.
-/

namespace ShellSale

variable {σ τ : Type}

namespace Phase

/-! ### What phases tell the log -/

/-- No line that the phase tells the log of its own starts with the flag. -/
def Underway : Phase → Prop
  | done | fail _ | overflow _ => True
  | admin _ _ _ _ next => Underway next
  | users _ _ next => Underway next
  | say text next => text.toList.head? ≠ some '🏁' ∧ Underway next
  | askCollection next => ∀ x, Underway (next x)
  | askEra next => ∀ x, Underway (next x)
  | askOwned _ _ next => ∀ x, Underway (next x)
  | askFood _ next => ∀ x, Underway (next x)

theorem Underway.child {p q : Phase} (h : p.Underway) (child : Child p q) : q.Underway := by
  cases child with
  | admin | users => exact h
  | say => exact h.2
  | askCollection x | askEra x | askOwned x | askFood x => exact h x

theorem growsTo_after_of_underway (sale : Sale σ) (w : World σ Call) {p : Phase} (h : p.Underway) :
    World.GrowsTo Entry.IsUnderway w (Visit.after sale ⟨w, p⟩) := by
  cases p with
  | admin step signer mode calls next => exact Sale.growsTo_admin ..
  | users step calls next => exact Sale.growsTo_users ..
  | say text next => exact Sale.growsTo_line w _ h.1
  | _ => exact .refl _ w

theorem growsTo_run (sale : Sale σ) (w : World σ Call) {p : Phase} (h : p.Underway) :
    World.GrowsTo Entry.IsUnderway w (p.run sale w).2 := by
  induction w, p using run_induction sale with
  | step w p ih =>
    have first := growsTo_after_of_underway sale w h
    rw [run_eq]
    cases left : p.resume (Visit.reply sale ⟨w, p⟩) with
    | ok q => exact first.trans (ih q left (h.child (child_of_resume left)))
    | error result => exact first

/-! ### The seven phases -/

section

variable {next : Phase}

theorem underway_fund (k : Keyring) (step : String) (signer : AccountName)
    (amounts : List (AccountName × Nat)) (h : next.Underway) :
    (fund k step signer amounts next).Underway := by
  unfold fund
  split
  · exact h
  · trivial

theorem underway_settlePreorders (chosen notChosen : List Nat) (h : next.Underway) :
    (settlePreorders chosen notChosen next).Underway := by
  have refund : (if notChosen.isEmpty then next
      else decree "Refund not chosen preorders" (.refundNotChosenPreorders notChosen)
        next).Underway := by
    split
    · exact h
    · exact h
  unfold settlePreorders
  dsimp only
  split
  · exact refund
  · exact refund

theorem underway_tellOwned (name : AccountName) (nfts : List Nat) (h : next.Underway) :
    (tellOwned name nfts next).Underway := by
  induction nfts with
  | nil => exact h
  | cons nft rest ih => exact ⟨by simp, ih⟩

theorem underway_lookUpOwned (collection : Nat) {next : List (AccountName × Nat) → Phase}
    (h : ∀ shells, (next shells).Underway) (found : List (AccountName × Nat))
    (names : List AccountName) : (lookUpOwned collection next found names).Underway := by
  induction names generalizing found with
  | nil => exact h found
  | cons name rest ih =>
    intro nfts
    exact underway_tellOwned name nfts (ih _)

theorem underway_feed (collection : Nat) (h : next.Underway) (number : Nat)
    (rounds : List (List Feeding)) : (feed collection next number rounds).Underway := by
  induction rounds generalizing number with
  | nil => exact h
  | cons round rest ih => exact ih (number + 1)

theorem underway_reward (reductions : List Nat) : (reward reductions).Underway := by
  intro era counts
  refine ⟨by simp, ?_⟩
  dsimp only
  split
  · exact ⟨by simp, trivial⟩
  · trivial

theorem underway_incubate (p : IncubationPlan) (collection : Nat) :
    (incubate p collection).Underway := by
  have started : ∀ calls, (users "Start incubation" calls
      (feed collection (reward p.reductions) 1 p.rounds)).Underway := by
    intro calls
    exact underway_feed collection (underway_reward p.reductions) 1 p.rounds
  show (withShells p collection _).Underway
  unfold withShells
  split
  · exact underway_lookUpOwned collection (fun _ => started _) [] p.incubators
  · exact started _

end

/-- No phase tells the log of its own that it is complete. -/
theorem underway_phase (name : PhaseName) (k : Keyring) (p : SalePlan) :
    (name.phase k p).Underway := by
  cases name with
  | init =>
    have opened : (if p.openSpiritClaims then setSwitch true .claimSpirits done
        else done).Underway := by
      split
      · trivial
      · trivial
    show (init k p).Underway
    unfold init
    dsimp only
    split
    · exact opened
    · exact underway_fund k _ _ _ opened
  | spiritClaim =>
    show (if p.spiritClaimants.isEmpty then done else _ : Phase).Underway
    split
    · trivial
    · exact underway_fund k _ _ _ trivial
  | rarePurchase => trivial
  | whitelistPurchase => trivial
  | preorder => trivial
  | lastDay =>
    exact underway_settlePreorders _ _ (underway_settlePreorders _ _ trivial)
  | incubation =>
    show (incubation p.incubation).Underway
    unfold incubation
    split
    · exact underway_incubate p.incubation _
    · intro x
      cases x with
      -- without a collection there is no incubation
      | none => trivial
      | some collection => exact underway_incubate p.incubation collection

end Phase

namespace CommandLine

/-- What the phase of a run works with. -/
def sale (c : CommandLine) (connection : Connection σ) (keyring : Keyring) : Sale σ where
  client := connection.client
  storage := connection.storage
  keyring := keyring
  options := c.options connection.interruptHandle

/-- The world in which the phase of a run starts. -/
def connected (c : CommandLine) (connection : Connection σ) (w : World σ Call) : World σ Call :=
  let w := Sale.say w .info ("🔵 Connecting to Substrate node at " ++ c.settings.endpoint.written)
  let w := Sale.say w .info ("🟢 Connected, runtime spec version " ++ toString connection.version)
  let w := { w with aborts := w.aborts.create connection.interruptHandle }
  Sale.say w .info ("🚀 Running " ++ c.phase.title)

/-- The line that tells that the phase is complete. -/
def completion (c : CommandLine) : LogLine :=
  ⟨.info, "🏁 " ++ c.phase.title ++ " complete"⟩

theorem perform_eq (c : CommandLine) (connection : Connection σ) (plan : SalePlan)
    (keyring : Keyring) (w : World σ Call) :
    c.perform connection plan keyring w =
      match (c.phase.phase keyring plan).run (c.sale connection keyring)
        (c.connected connection w) with
      | (.ok (), w) => (.ok (), w.record (.line c.completion))
      | (.error halt, w) => (.error (.ofHalt halt), w) := rfl

theorem growsTo_connected (c : CommandLine) (connection : Connection σ) (w : World σ Call) :
    World.GrowsTo Entry.IsUnderway w (c.connected connection w) := by
  have connecting : World.GrowsTo Entry.IsUnderway w
      (Sale.say w .info ("🔵 Connecting to Substrate node at " ++ c.settings.endpoint.written)) :=
    Sale.growsTo_line w _ (by simp)
  have connected := connecting.trans (Sale.growsTo_line _
    ⟨.info, "🟢 Connected, runtime spec version " ++ toString connection.version⟩ (by simp))
  refine (connected.trans ?_).trans (Sale.growsTo_line _ _ ?_)
  · exact .of_eq rfl rfl
  · simp

theorem sent_connected (c : CommandLine) (connection : Connection σ) (w : World σ Call) :
    (c.connected connection w).sent = w.sent := by
  have connecting := World.sent_line w
    ⟨.info, "🔵 Connecting to Substrate node at " ++ c.settings.endpoint.written⟩
  have connected := (World.sent_line _
    ⟨.info, "🟢 Connected, runtime spec version " ++ toString connection.version⟩).trans connecting
  exact (World.sent_line _ _).trans connected

/-- The log of a run has the line that the phase is complete exactly if the run succeeds. -/
theorem completion_mem_iff (c : CommandLine) (connection : Connection σ) (plan : SalePlan)
    (keyring : Keyring) (w : World σ Call) :
    (∃ new, (c.perform connection plan keyring w).2.log = w.log ++ new ∧
        ∃ at_, (at_, .line c.completion) ∈ new) ↔
      (c.perform connection plan keyring w).1 = .ok () := by
  have grows := (c.growsTo_connected connection w).trans
    (Phase.growsTo_run (c.sale connection keyring) (c.connected connection w)
      (Phase.underway_phase c.phase keyring plan))
  rw [perform_eq]
  rcases ran : (c.phase.phase keyring plan).run (c.sale connection keyring)
    (c.connected connection w) with ⟨halt | u, w'⟩
  · rw [ran] at grows
    -- the phase has halted, so all lines are from before its end
    obtain ⟨underway, log, all⟩ := grows.log
    refine iff_of_false ?_ (by simp)
    -- the line of completion is not among them
    rintro ⟨new, log', at_, mem⟩
    rw [log] at log'
    obtain rfl := List.append_cancel_left log'
    refine all _ mem c.completion rfl ?_
    simp [completion]
  · rw [ran] at grows
    obtain ⟨new, log, -⟩ := grows.log
    refine iff_of_true ?_ rfl
    refine ⟨new ++ [(w'.now, .line c.completion)], ?_, w'.now, by simp⟩
    rw [← List.append_assoc, ← log]
    rfl

theorem code_ofResult (c : CommandLine) (result : Except RunFailure Unit) :
    (Exit.ofResult c result).1 = 0 ↔ result = .ok () := by
  rcases result with (e | o) | u
  · simp [Exit.ofResult]
  · simp [Exit.ofResult]
  · simp [Exit.ofResult]

/-- The exit code of a run that no second interrupt ends is 0 exactly if the run succeeds. -/
theorem code_ofRun (c : CommandLine) (result : Except RunFailure Unit) (w : World Node Call)
    {interrupts : List Nat} (few : interrupts.length ≤ 1) :
    (Exit.ofRun c result w interrupts).code = 0 ↔ result = .ok () := by
  rw [← code_ofResult c result]
  match interrupts with
  | [] => rfl
  | [first] => rfl
  | first :: second :: rest => simp at few

/-- A run succeeds or fails as its phase does. -/
theorem fst_perform (c : CommandLine) (connection : Connection σ) (plan : SalePlan)
    (keyring : Keyring) (w : World σ Call) :
    (c.perform connection plan keyring w).1 =
      ((c.phase.phase keyring plan).run (c.sale connection keyring)
        (c.connected connection w)).1.mapError .ofHalt := by
  rw [perform_eq]
  rcases (c.phase.phase keyring plan).run (c.sale connection keyring)
    (c.connected connection w) with ⟨halt | u, w'⟩
  · rfl
  · rfl

theorem perform_eq_ok_iff (c : CommandLine) (connection : Connection σ) (plan : SalePlan)
    (keyring : Keyring) (w : World σ Call) :
    (c.perform connection plan keyring w).1 = .ok () ↔
      ∀ v ∈ (c.phase.phase keyring plan).visits (c.sale connection keyring)
        (c.connected connection w), v.Succeeds (c.sale connection keyring) := by
  rw [← Phase.run_eq_ok_iff, fst_perform]
  cases ((c.phase.phase keyring plan).run (c.sale connection keyring)
    (c.connected connection w)).1 with
  | error halt => simp [Except.mapError]
  | ok u => simp [Except.mapError]

theorem sent_perform (c : CommandLine) (connection : Connection σ) (plan : SalePlan)
    (keyring : Keyring) (w : World σ Call) :
    (c.perform connection plan keyring w).2.sent = w.sent ++
      ((c.phase.phase keyring plan).visits (c.sale connection keyring)
        (c.connected connection w)).flatMap (·.handed (c.sale connection keyring)) := by
  have sent := Phase.sent_run (c.sale connection keyring) (c.connected connection w)
    (c.phase.phase keyring plan)
  rw [sent_connected] at sent
  rw [← sent, perform_eq]
  rcases (c.phase.phase keyring plan).run (c.sale connection keyring)
    (c.connected connection w) with ⟨halt | u, w'⟩
  · rfl
  · exact World.sent_line w' _

/-- **Runs of the seven phases.** When a run comes to a step, just the calls of the steps before
have been handed over; those of administrative steps are all final and were not reverted, and no
task of the users waits any more. The run succeeds, tells so and exits with 0 exactly if all
administrative steps it came to had all their calls accepted and nothing else failed for good. What
became of the users' calls changes neither the steps nor the end. -/
theorem perform_spec (c : CommandLine) (connection : Connection σ) (plan : SalePlan)
    (keyring : Keyring) (w : World σ Call) :
    let sale := c.sale connection keyring
    let phase := c.phase.phase keyring plan
    let visits := phase.visits sale (c.connected connection w)
    let p := c.perform connection plan keyring w
    (∀ before v later, visits = before ++ v :: later →
        v.world.sent = w.sent ++ before.flatMap (·.handed sale) ∧
          ∀ u ∈ before, u.Settled sale ∧ (u.after sale).now ≤ v.world.now) ∧
      p.2.sent = w.sent ++ visits.flatMap (·.handed sale) ∧
      (p.1 = .ok () ↔ ∀ v ∈ visits, v.Succeeds sale) ∧
      ((∃ new, p.2.log = w.log ++ new ∧ ∃ at_, (at_, .line c.completion) ∈ new) ↔ p.1 = .ok ()) ∧
      (∀ (last : World Node Call) (interrupts : List Nat), interrupts.length ≤ 1 →
        ((Exit.ofRun c p.1 last interrupts).code = 0 ↔ p.1 = .ok ())) ∧
      ∀ (other : Connection τ) (w' : World τ Call),
        let visits' := phase.visits (c.sale other keyring) (c.connected other w')
        Phase.LearnAlike sale (c.sale other keyring) visits visits' →
          visits.map (·.phase) = visits'.map (·.phase) ∧
            p.1 = (c.perform other plan keyring w').1 := by
  intro sale phase visits p
  refine ⟨?_, c.sent_perform connection plan keyring w,
    c.perform_eq_ok_iff connection plan keyring w,
    c.completion_mem_iff connection plan keyring w, ?_, ?_⟩
  · intro before v later split
    obtain ⟨-, sent, settled⟩ := Phase.visits_order sale rfl (c.connected connection w) phase split
    rw [sent_connected] at sent
    exact ⟨sent, settled⟩
  · intro last interrupts few
    exact c.code_ofRun p.1 last few
  · intro other w' visits' alike
    obtain ⟨phases, result⟩ := Phase.run_alike sale (c.sale other keyring)
      (c.connected connection w) (c.connected other w') phase alike
    refine ⟨phases, ?_⟩
    show (c.perform connection plan keyring w).1 = (c.perform other plan keyring w').1
    rw [fst_perform, fst_perform]
    exact congrArg (Except.mapError RunFailure.ofHalt) result

end CommandLine

end ShellSale
