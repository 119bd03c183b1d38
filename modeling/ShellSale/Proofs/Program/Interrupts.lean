import ShellSale.Program.Interrupt
import ShellSale.Proofs.Program.Completion
import ShellSale.Proofs.Sale.Heeding

/-!
## Runs that are interrupted

The first interrupt raises the signal that all steps of a run heed. From then on the run hands over
nothing, neither in the step under way nor in a later one, but it waits for what it has handed over
and reports it.

* `InterruptWatch.hasAborted_calm_iff`: the watcher raises the signal at the first interrupt, for
  good.
* `CommandLine.perform_interrupted` is the main result.
-/

namespace ShellSale

variable {σ : Type}

/-! ### The watcher -/

namespace InterruptWatch

theorem hasAborted_next {w : InterruptWatch} (h : w.hasAborted = true) (s : Signal) :
    (w.next s).hasAborted = true := by
  cases w with
  | calm => cases h
  | warned => cases s <;> rfl
  | released aborted => exact h
  | leaving => rfl

/-- A watcher that has raised the signal never takes it back. -/
theorem hasAborted_after {w : InterruptWatch} (h : w.hasAborted = true) (signals : List Signal) :
    (w.after signals).hasAborted = true := by
  induction signals generalizing w with
  | nil => exact h
  | cons s rest ih => exact ih (hasAborted_next h s)

/-- A watcher that is done looks at nothing more. -/
theorem after_released (aborted : Bool) (signals : List Signal) :
    (released aborted).after signals = released aborted := by
  induction signals with
  | nil => rfl
  | cons s rest ih => exact ih

/-- **The first interrupt raises the signal**, and whatever comes later does not take it back. -/
theorem hasAborted_calm_iff (signals : List Signal) :
    (calm.after signals).hasAborted = true ↔ signals.head? = some .interrupt := by
  cases signals with
  | nil => exact iff_of_false Bool.false_ne_true (by simp)
  | cons s rest =>
    cases s with
    | interrupt => exact iff_of_true (hasAborted_after (w := warned) rfl rest) rfl
    | finished =>
      have past : calm.after (.finished :: rest) = released false := after_released false rest
      rw [past]
      exact iff_of_false Bool.false_ne_true (by simp)

end InterruptWatch

/-! ### Runs -/

namespace CommandLine

/-- Keys that are loaded are of different accounts. -/
theorem injective_of_prepare {c : CommandLine} {s : Surroundings} {plan : SalePlan}
    {keyring : Keyring} (h : c.prepare s = .ok (plan, keyring)) :
    Function.Injective keyring.account := by
  unfold prepare at h
  simp only [bind, Except.bind, pure, Except.pure] at h
  cases read : c.plan s with
  | error e =>
    rw [read] at h
    cases h
  | ok p =>
    cases loaded : c.settings.keys.load s.keys with
    | error e =>
      rw [read, loaded] at h
      cases h
    | ok k =>
      rw [read, loaded] at h
      cases h
      exact SecretUris.injective_of_load loaded

theorem callsBy_connected (c : CommandLine) (connection : Connection σ) (w : World σ Call)
    (a : AccountId) : (c.connected connection w).callsBy a = w.callsBy a := by
  have connecting := World.callsBy_line w
    ⟨.info, "🔵 Connecting to Substrate node at " ++ c.settings.endpoint.written⟩ a
  have connected := (World.callsBy_line _
    ⟨.info, "🟢 Connected, runtime spec version " ++ toString connection.version⟩ a).trans connecting
  exact (World.callsBy_line _ _ a).trans connected

/-- The handle of a run is live once the run has connected, so it is fired whenever it is due. -/
theorem firesAt_connected (c : CommandLine) (connection : Connection σ) {w : World σ Call}
    {at_ : Nat} (due : (at_, connection.interruptHandle) ∈ w.aborts.due) :
    (c.connected connection w).FiresAt connection.interruptHandle at_ :=
  ⟨List.mem_cons_self, due⟩

/-- All that a run does once it has connected heeds its signal. -/
theorem heeding_perform (c : CommandLine) (connection : Connection σ) (plan : SalePlan)
    (keyring : Keyring) (w : World σ Call) :
    World.Heeding connection.client (c.options connection.interruptHandle)
      (c.connected connection w) (c.perform connection plan keyring w).2 := by
  have ran := Phase.heeding_run (c.sale connection keyring) (c.connected connection w)
    (c.phase.phase keyring plan)
  rw [perform_eq]
  rcases ended : (c.phase.phase keyring plan).run (c.sale connection keyring)
    (c.connected connection w) with ⟨halt | u, w'⟩
  · rw [ended] at ran
    exact ran
  · rw [ended] at ran
    exact ran.trans (Sale.heeding_say connection.client _ w' .info _)

/-- A run ends under the raised signal if its phase does. -/
theorem aborted_perform {c : CommandLine} {connection : Connection σ} {plan : SalePlan}
    {keyring : Keyring} {w : World σ Call} {o : Options}
    (raised : ((c.phase.phase keyring plan).run (c.sale connection keyring)
      (c.connected connection w)).2.aborted o = true) :
    (c.perform connection plan keyring w).2.aborted o = true := by
  rw [perform_eq]
  rcases ran : (c.phase.phase keyring plan).run (c.sale connection keyring)
    (c.connected connection w) with ⟨halt | u, w'⟩
  · rw [ran] at raised
    exact raised
  · rw [ran] at raised
    exact raised

/-- **Runs that are interrupted.** Every call of a run was handed over at a point at which its
signal was not raised, whatever step was under way. A raised signal stays raised, and no later step
hands over anything. The watcher raises it at the first interrupt, and nothing that it sees later
takes it back. So all calls are earlier than any moment at which the handle of the run is due
to be fired. What was handed over is reported all the same: the batch of an administrative step
reports its first calls, and the step fails if these are not all; in a step of the users each batch
has an outcome for each of its calls. -/
theorem perform_interrupted (c : CommandLine) {s : Surroundings} {plan : SalePlan}
    {keyring : Keyring} (prepared : c.prepare s = .ok (plan, keyring))
    (connection : Connection σ) (w : World σ Call) :
    let sale := c.sale connection keyring
    let visits := (c.phase.phase keyring plan).visits sale (c.connected connection w)
    let p := c.perform connection plan keyring w
    (∃ new, p.2.sent = w.sent ++ new ∧ ∀ (k : Nat) call, new[k]? = some call →
        ∃ u, World.Heeding connection.client sale.options (c.connected connection w) u ∧
          u.aborted sale.options = false ∧ u.sent = w.sent ++ new.take k ∧
          World.Heeding connection.client sale.options
            (u.handOver connection.client call.account call.nonce call.call) p.2) ∧
      (∀ before v later, visits = before ++ v :: later →
        (v.world.aborted sale.options = true →
          v.handed sale = [] ∧ (v.after sale).aborted sale.options = true) ∧
        ((v.after sale).aborted sale.options = true → p.2.aborted sale.options = true ∧
          ∀ u ∈ later, u.world.aborted sale.options = true ∧ u.handed sale = [])) ∧
      (∀ at_, (at_, connection.interruptHandle) ∈ w.aborts.due → ∀ a, ∃ new,
        p.2.callsBy a = w.callsBy a ++ new ∧ ∀ call ∈ new, call.1 < at_) ∧
      (∀ signals, (InterruptWatch.calm.after signals).hasAborted = true ↔
        signals.head? = some .interrupt) ∧
      ∀ v ∈ visits, v.Reports sale := by
  intro sale visits p
  have heeding := c.heeding_perform connection plan keyring w
  refine ⟨?_, ?_, ?_, InterruptWatch.hasAborted_calm_iff, ?_⟩
  · have calm := heeding.exists_calm
    rw [sent_connected] at calm
    exact calm
  -- steps: a step heeds the signal if it is raised before it, and so do all steps behind it
  · intro before v later split
    refine ⟨?_, ?_⟩
    · intro raised
      exact ⟨Visit.handed_of_aborted raised, (Visit.heeding_after sale v).aborted raised⟩
    · intro raised
      obtain ⟨quiet, still⟩ := Phase.quiet_behind sale (c.connected connection w) _ split raised
      exact ⟨aborted_perform still, quiet⟩
  -- moments: a signal that is due makes an end to all calls
  · intro at_ due a
    obtain ⟨new, calls, early⟩ := heeding.early (c.firesAt_connected connection due) rfl a
    rw [callsBy_connected] at calls
    exact ⟨new, calls, early⟩
  · intro v _
    exact v.reports (injective_of_prepare prepared) rfl

/-- A run that is interrupted after 10 milliseconds hands over nothing from then on. -/
theorem perform_interrupted_early :
    let uris : SecretUris :=
      { root := "", user := "b", charlie := "cc", david := "ddd"
        eve := "eeee", ferdie := "fffff", overlord := some "oooooo" }
    let c : CommandLine := { phase := .init, settings := { keys := uris } }
    let s : Surroundings :=
      { keys := fun uri => .ok (.ofNat uri.length)
        file := fun _ => .absent }
    let connection : Connection Unit :=
      { client :=
          { nonce := fun _ _ _ => (.ok 0, ())
            handOver := fun _ now _ _ _ =>
              ({ feed := [(now + 7, .event (.finalized (.ofNat 1) []))] }, ())
            errors := fun _ _ => none }
        storage :=
          { collection := fun _ _ => .ok none
            era := fun _ _ => .ok 0
            owned := fun _ _ _ _ => .ok []
            food := fun _ _ _ => .ok [] }
        version := 1
        interruptHandle := "stop" }
    let w : World Unit Call := { node := (), aborts := { due := [(10, "stop")] } }
    ∃ plan keyring, c.prepare s = .ok (plan, keyring) ∧
      ∀ a, ∀ call ∈ (c.perform connection plan keyring w).2.callsBy a, call.1 < 10 := by
  intro uris c s connection w
  let keyring : Keyring := ⟨fun name => .ofNat (uris.uri name).length⟩
  have loaded : uris.load s.keys = .ok keyring :=
    SecretUris.load_eq_ok (fun _ => rfl) (by decide)
  have prepared : c.prepare s = .ok ({}, keyring) := by
    simp only [prepare, show c.plan s = .ok {} from rfl, show c.settings.keys = uris from rfl,
      loaded]
    rfl
  refine ⟨{}, keyring, prepared, ?_⟩
  intro a call mem
  obtain ⟨-, -, early, -⟩ := perform_interrupted c prepared connection w
  obtain ⟨new, calls, before⟩ := early 10 (List.mem_singleton_self _) a
  rw [calls] at mem
  exact before call mem

end CommandLine

end ShellSale
