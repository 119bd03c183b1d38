import ShellSale.Proofs.Batch.Gathering
import ShellSale.Proofs.Sale.Accounts
import ShellSale.Proofs.Sale.Effects

/-!
## The trackers that a phase opens

A tracker cannot be opened while another one of its account is open. The steps of a phase never come
to that: a step of the users opens one tracker for each of its accounts, the keys give every name an
account of its own, and whichever way a step ends, it gives back all accounts before the next step
opens any.

* `SignerTask.mem_held_launchAll`: tasks that are launched claim no accounts but their own.
* `Sale.held_admin`, `Sale.held_users`: steps give back what they claim.
* `Visit.Opens` lists the trackers that a phase opens, and the worlds in which it does.
* `Phase.opens_free` is the main result: none of them is refused because another one is open.
-/

namespace ShellSale

variable {σ κ : Type}

/-- A tracker of a free account is not refused because another one is open. -/
theorem Tracker.open_ne_alreadyOpen (client : Client σ κ) {w : World σ κ} {a : AccountId}
    (free : a ∉ w.registry.held) (other : AccountId) :
    (Tracker.open_ client w a).1 ≠ .error (.alreadyOpen other) := by
  rw [Tracker.open_of_not_mem client free]
  rcases client.nonce w.node w.now a with ⟨cause | nonce, node⟩
  · simp
  · simp

namespace SignerTask

/-! ### Tasks -/

variable (client : Client σ κ) (mode : Mode) (options : Options)

/-- A task that is spawned claims no account but its own. -/
theorem mem_held_spawn (w : World σ κ) (number : Nat) (b : Batch κ) {a : AccountId}
    (held : a ∈ (spawn client mode options w number b).1.registry.held) :
    a = b.account ∨ a ∈ w.registry.held := by
  obtain ⟨-, -, claimed, own⟩ := spawn_spec client mode options w number b
  rw [claimed, List.mem_append, Option.mem_toList] at held
  exact held.imp_left (own a)

/-- Tasks that are launched claim no accounts but their own. -/
theorem mem_held_launchAll (w : World σ κ) (number : Nat) (batches : List (Batch κ))
    {a : AccountId} (held : a ∈ (launchAll client mode options w number batches).1.registry.held) :
    a ∈ batches.map (·.account) ∨ a ∈ w.registry.held := by
  induction batches generalizing w number with
  | nil => exact Or.inr held
  | cons b rest ih =>
    rcases ih _ _ held with later | first
    · exact Or.inl (List.mem_cons_of_mem _ later)
    · refine (mem_held_spawn client mode options w number b first).imp_left ?_
      rintro rfl
      exact List.mem_cons_self

/-- A task that has not ended for want of its account. -/
def Admitted (t : SignerTask κ) : Prop :=
  ∀ a, t.state ≠ .ended (.error (.alreadyOpen a))

theorem Admitted.error?_ne {t : SignerTask κ} (h : t.Admitted) (a : AccountId) :
    t.error? ≠ some (.alreadyOpen a) := by
  unfold error?
  split
  · rename_i state
    rintro ⟨⟩
    exact h a state
  · simp

theorem admitted_conclude (w : World σ κ) (account : AccountId) (number : Nat) (r : Runner κ) :
    (conclude w account number r).2.Admitted := by
  intro a
  unfold conclude
  split <;> simp

theorem admitted_launch {w : World σ κ} (number : Nat) {b : Batch κ}
    (free : b.account ∉ w.registry.held) :
    (launch client mode options w number b).2.Admitted := by
  have granted := Tracker.open_ne_alreadyOpen client free
  unfold launch
  cases result : Tracker.open_ client w b.account with
  | mk answer w' =>
    rw [result] at granted
    cases answer with
    | error e =>
      intro a refused
      cases refused
      exact granted a rfl
    | ok t => exact admitted_conclude _ _ _ _

theorem Admitted.resume {t : SignerTask κ} (h : t.Admitted) (w : World σ κ) :
    (t.resume client w).2.Admitted := by
  unfold SignerTask.resume
  split
  · split
    · exact admitted_conclude _ _ _ _
    · exact h
  · exact h

theorem admitted_spawn {w : World σ κ} (number : Nat) {b : Batch κ}
    (free : b.account ∉ w.registry.held) :
    (spawn client mode options w number b).2.Admitted :=
  spawn_induction (P := fun _ t => t.Admitted) (admitted_launch client mode options number free)
    fun w' _ _ _ _ admitted => admitted.resume client w'

/-- Tasks of different accounts that are all free are launched without a refusal. -/
theorem admitted_launchAll {w : World σ κ} (number : Nat) {batches : List (Batch κ)}
    (distinct : (batches.map (·.account)).Nodup)
    (free : ∀ b ∈ batches, b.account ∉ w.registry.held) :
    ∀ t ∈ (launchAll client mode options w number batches).2, t.Admitted := by
  induction batches generalizing w number with
  | nil => simp [launchAll]
  | cons b rest ih =>
    rw [List.map_cons, List.nodup_cons] at distinct
    rw [List.forall_mem_cons] at free
    intro t mem
    rcases List.mem_cons.mp mem with rfl | mem
    · exact admitted_spawn client mode options number free.1
    · refine ih (number + 1) distinct.2 ?_ t mem
      intro b' later held
      rcases mem_held_spawn client mode options w number b held with same | held
      · exact distinct.1 (same ▸ List.mem_map_of_mem later)
      · exact free.2 b' later held

theorem admitted_rounds {p q : World σ κ × List (SignerTask κ)} (rounds : Rounds client p q)
    (h : ∀ t ∈ p.2, t.Admitted) : ∀ t ∈ q.2, t.Admitted := by
  refine rounds.keep (P := fun _ tasks => ∀ t ∈ tasks, t.Admitted) ?_ h
  rintro w tasks w' tasks' ⟨next, found, due⟩ admitted t' mem
  rcases List.mem_or_eq_of_mem_set mem with mem | rfl
  · exact admitted t' mem
  · exact (admitted _ (List.mem_of_getElem? found)).resume client _

end SignerTask

/-- Batches of different accounts that are all free are run without a refusal. -/
theorem admitted_tasksOf (client : Client σ κ) {w : World σ κ} {batches : List (Batch κ)}
    (mode : Mode) (options : Options) (distinct : (batches.map (·.account)).Nodup)
    (free : ∀ b ∈ batches, b.account ∉ w.registry.held) :
    ∀ t ∈ (tasksOf client w batches mode options).2, t.Admitted :=
  SignerTask.admitted_rounds client (runs_tasksOf client w batches mode options).rounds
    (SignerTask.admitted_launchAll client mode options _ distinct free)

/-! ### Steps -/

namespace Sale

variable (sale : Sale σ)

/-- An administrative step gives back the account that it claims, whichever way it ends. -/
theorem held_admin (w : World σ Call) (step : String) (signer : AccountId) (mode : Mode)
    (calls : List Call) : (sale.admin w step signer mode calls).2.registry = w.registry := by
  cases result : Tracker.open_ sale.client (say w .info ("🔧 " ++ step ++ "...")) signer with
  | mk answer w₁ =>
    cases answer with
    | error e =>
      simp only [admin, result]
      exact (Tracker.registry_of_open_error result :)
    | ok t =>
      obtain ⟨-, claimed, mine, -, -⟩ := Tracker.open_eq_ok result
      obtain ⟨account, registry, -⟩ :=
        Runner.acts_runBatch sale.client w₁ t mode (strict sale.options) calls
      let ran := runBatch sale.client w₁ t mode (strict sale.options) calls
      have released : ran.1.registry.release ran.2.tracker.account = w.registry := by
        rw [registry, account, mine, Registry.release, claimed, List.erase_cons_head]
        rfl
      simp only [admin, result]
      split
      · exact released
      · split
        · exact released
        · exact released

/-- A step of the users gives back the accounts that it claims, whichever way its tasks end. -/
theorem held_users (w : World σ Call) (step : String) (mode : Mode)
    (calls : List (AccountName × Call)) :
    (sale.users w step mode calls).2.registry.held.Perm w.registry.held := by
  have held := held_runAcross sale.client
    (say w .info ("👥 " ++ step ++ " for " ++ toString (batches sale.keyring calls).length ++
      " accounts...")) (batches sale.keyring calls) mode sale.options
  unfold users
  dsimp only
  split
  · rename_i failed
    rw [failed] at held
    exact held
  · rename_i gathered
    rw [gathered] at held
    rw [foldl_lines]
    exact held

/-- An administrative step of a free account is not refused because a tracker is open. -/
theorem admin_ne_alreadyOpen {w : World σ Call} (step : String) {signer : AccountId} (mode : Mode)
    (calls : List Call) (free : signer ∉ w.registry.held) (a : AccountId) :
    (sale.admin w step signer mode calls).1 ≠ .error (.error (.pipeline (.alreadyOpen a))) := by
  have granted := Tracker.open_ne_alreadyOpen sale.client
    (w := say w .info ("🔧 " ++ step ++ "...")) free a
  cases batch : sale.adminBatch w step signer mode calls with
  | error e =>
    rw [admin_of_error batch]
    rintro ⟨⟩
    -- the batch fails only with the answer of the opening
    unfold adminBatch at batch
    split at batch
    · rename_i refused
      obtain rfl := Except.error.inj batch
      rw [refused] at granted
      exact granted rfl
    · cases batch
  | ok p =>
    obtain ⟨t, w', r⟩ := p
    rw [admin_of_ok batch]
    split
    -- all other failures are shortfalls
    · simp
    · split
      · rename_i e short
        rintro ⟨⟩
        unfold shortfall? at short
        split at short
        · cases short
        · split at short <;> cases short
      · simp

/-- The tasks of a step of the users in which all accounts are free and different run without a
refusal. -/
theorem admitted_userTasks {w : World σ Call} (step : String) (mode : Mode)
    (calls : List (AccountName × Call))
    (distinct : ((batches sale.keyring calls).map (·.account)).Nodup)
    (free : w.registry.held = []) :
    ∀ t ∈ (sale.userTasks w step mode calls).2, t.Admitted := by
  refine admitted_tasksOf sale.client mode sale.options distinct ?_
  intro b _ held
  have taken : b.account ∈ w.registry.held := held
  rw [free] at taken
  cases taken

/-- Such a step is not refused because a tracker is open. -/
theorem users_ne_alreadyOpen {w : World σ Call} (step : String) (mode : Mode)
    (calls : List (AccountName × Call))
    (distinct : ((batches sale.keyring calls).map (·.account)).Nodup) (free : w.registry.held = [])
    (a : AccountId) :
    (sale.users w step mode calls).1 ≠ .error (.error (.pipeline (.alreadyOpen a))) := by
  let start := say w .info ("👥 " ++ step ++ " for " ++
    toString (batches sale.keyring calls).length ++ " accounts...")
  have admitted := sale.admitted_userTasks step mode calls distinct free
  have accounts := accounts_tasksOf sale.client start (batches sale.keyring calls) mode sale.options
  obtain ⟨results, -, -, answer, -⟩ := exists_gathered sale.client start
    (batches sale.keyring calls) mode sale.options (accounts ▸ distinct)
  unfold users
  dsimp only
  split
  · rename_i e w' failed
    rintro ⟨⟩
    rw [failed] at answer
    -- the error of the step is the error of one of its tasks
    split at answer
    · rename_i found
      obtain ⟨t, mem, gives⟩ := List.exists_of_findSome?_eq_some found
      obtain rfl := Except.error.inj answer
      exact (admitted t mem).error?_ne a gives
    · cases answer
  · simp

end Sale

/-! ### Phases -/

namespace Visit

/-- The trackers that a step opens: the account, and the world in which the tracker is opened. A
step of the users opens one for each of its batches, whichever task is started first; when it comes
to a batch, the tasks of the batches before have been launched. -/
inductive Opens (sale : Sale σ) : Visit σ → AccountId → World σ Call → Prop
  | admin {w : World σ Call} {step : String} {signer : AccountName} {mode : Mode}
    {calls : List Call} {next : Phase} :
    Opens sale ⟨w, .admin step signer mode calls next⟩ (sale.keyring.account signer)
      (Sale.say w .info ("🔧 " ++ step ++ "..."))
  | users {w : World σ Call} {step : String} {calls : List (AccountName × Call)} {next : Phase}
    {before later : List (Batch Call)} {b : Batch Call}
    (order : (before ++ b :: later).Perm (Sale.batches sale.keyring calls)) :
    Opens sale ⟨w, .users step calls next⟩ b.account
      (SignerTask.launchAll sale.client .pipelined sale.options
        { Sale.say w .info ("👥 " ++ step ++ " for " ++
            toString (Sale.batches sale.keyring calls).length ++ " accounts...") with
          tasks := w.tasks + (Sale.batches sale.keyring calls).length }
        (w.tasks + 1) before).1

/-- The tasks of a step, each with its end. An administrative step has none. -/
def tasks (sale : Sale σ) : Visit σ → List (SignerTask Call)
  | ⟨w, .users step calls _⟩ => (sale.userTasks w step .pipelined calls).2
  | _ => []

variable {sale : Sale σ} {v : Visit σ}

/-- Whatever a step opens while nothing is open is free when it does. -/
theorem Opens.free {a : AccountId} {w' : World σ Call} (h : v.Opens sale a w')
    (distinct : Function.Injective sale.keyring.account) (free : v.world.registry.held = []) :
    a ∉ w'.registry.held := by
  cases h with
  | admin =>
    rw [show (Sale.say _ _ _).registry.held = [] from free]
    exact List.not_mem_nil
  | @users w step calls next before later b order =>
    intro held
    have accounts := (order.map (·.account)).nodup_iff.mpr (Sale.nodup_batches distinct calls)
    rw [List.map_append, List.map_cons, List.nodup_middle, List.nodup_cons] at accounts
    rcases SignerTask.mem_held_launchAll _ _ _ _ _ before held with mine | held
    · exact accounts.1 (List.mem_append_left _ mine)
    · have taken : b.account ∈ w.registry.held := held
      rw [show w.registry.held = [] from free] at taken
      cases taken

/-- A step gives back all accounts that it claims. -/
theorem held_after (sale : Sale σ) (v : Visit σ) :
    (v.after sale).registry.held.Perm v.world.registry.held := by
  obtain ⟨w, p⟩ := v
  cases p with
  | admin step signer mode calls next =>
    exact .of_eq (congrArg Registry.held (sale.held_admin w step _ mode calls))
  | users step calls next => exact sale.held_users w step .pipelined calls
  | _ => exact .refl _

/-- No task of a step that begins while nothing is open ends for want of its account. -/
theorem admitted_tasks (distinct : Function.Injective sale.keyring.account)
    (free : v.world.registry.held = []) : ∀ t ∈ v.tasks sale, t.Admitted := by
  obtain ⟨w, p⟩ := v
  cases p with
  | users step calls next =>
    exact sale.admitted_userTasks step .pipelined calls (Sale.nodup_batches distinct calls) free
  | _ => exact fun t mem => absurd mem List.not_mem_nil

/-- A step that begins while nothing is open does not end for want of an account. -/
theorem reply_ne_alreadyOpen (distinct : Function.Injective sale.keyring.account)
    (free : v.world.registry.held = []) (a : AccountId) :
    v.reply sale ≠ .step (.error (.error (.pipeline (.alreadyOpen a)))) := by
  obtain ⟨w, p⟩ := v
  cases p with
  | admin step signer mode calls next =>
    have granted := sale.admin_ne_alreadyOpen step mode calls
      (show sale.keyring.account signer ∉ w.registry.held from free ▸ List.not_mem_nil) a
    intro same
    exact granted (Reply.step.inj same)
  | users step calls next =>
    have granted := sale.users_ne_alreadyOpen (w := w) step .pipelined calls
      (Sale.nodup_batches distinct calls) free a
    intro same
    have refused := Reply.step.inj same
    cases result : (sale.users w step .pipelined calls).1 with
    | ok outcomes =>
      rw [result] at refused
      cases refused
    | error halt =>
      rw [result] at refused granted
      obtain rfl := Except.error.inj refused
      exact granted rfl
  | _ => exact fun same => by cases same

end Visit

namespace Phase

/-- **No tracker is refused because another one is open.** For keys that can be used, every phase of
every plan, every node and every options, in a program that has no tracker open: whenever the phase
comes to a step, nothing is open; each tracker that the step opens is of an account that is free
then, so that its opening does not fail for want of it, and neither does a task of the step or the
step itself; and when the phase has ended, however it did, nothing is open. -/
theorem opens_free {u : SecretUris} {key : Derivation} {sale : Sale σ}
    (loaded : u.load key = .ok sale.keyring) {w : World σ Call} (free : w.registry.held = [])
    (p : Phase) :
    (∀ v ∈ p.visits sale w, v.world.registry.held = [] ∧
      (∀ a w', v.Opens sale a w' → a ∉ w'.registry.held ∧
        ∀ other, (Tracker.open_ sale.client w' a).1 ≠ .error (.alreadyOpen other)) ∧
      (∀ t ∈ v.tasks sale, ∀ a, t.error? ≠ some (.alreadyOpen a)) ∧
      ∀ a, v.reply sale ≠ .step (.error (.error (.pipeline (.alreadyOpen a))))) ∧
      (p.run sale w).2.registry.held = [] := by
  have distinct := SecretUris.injective_of_load loaded
  induction w, p using run_induction sale with
  | step w p ih =>
    have after : (Visit.after sale ⟨w, p⟩).registry.held = [] := by
      have held := Visit.held_after sale ⟨w, p⟩
      rw [show (Visit.mk w p).world.registry.held = [] from free] at held
      exact held.eq_nil
    rw [visits_eq, run_eq, List.forall_mem_cons]
    refine and_assoc.mpr ⟨⟨free, ?_, ?_, Visit.reply_ne_alreadyOpen distinct free⟩, ?_⟩
    · intro a w' opens
      have unheld := opens.free distinct free
      exact ⟨unheld, Tracker.open_ne_alreadyOpen sale.client unheld⟩
    · exact fun t mem => (Visit.admitted_tasks distinct free t mem).error?_ne
    · cases left : p.resume (Visit.reply sale ⟨w, p⟩) with
      | ok q => exact ih q left after
      | error result => exact ⟨by simp, after⟩

/-- A plan that lists claimants several times, the overlord and the root account among them, on a
chain that reports every call as final. -/
theorem opens_free_repeated :
    let uris : SecretUris :=
      { root := "", user := "b", charlie := "cc", david := "ddd"
        eve := "eeee", ferdie := "fffff", overlord := some "oooooo" }
    let keyring : Keyring := ⟨fun name => .ofNat (uris.uri name).length⟩
    let sale : Sale Unit :=
      { client :=
          { nonce := fun _ _ _ => (.ok 0, ())
            handOver := fun _ now _ _ _ =>
              ({ feed := [(now + 7, .event (.finalized (.ofNat 1) []))] }, ())
            errors := fun _ _ => none }
        storage :=
          { collection := fun _ _ => .ok none
            era := fun _ _ => .ok 0
            owned := fun _ _ _ _ => .ok []
            food := fun _ _ _ => .ok [] }
        keyring
        options := {} }
    let plan : SalePlan := { spiritClaimants := [.bob, .overlord, .bob, .alice, .bob] }
    let p := PhaseName.spiritClaim.phase keyring plan
    let w : World Unit Call := { node := () }
    uris.load (fun uri => .ok (.ofNat uri.length)) = .ok keyring ∧
      (∀ v ∈ p.visits sale w, ∀ a w', v.Opens sale a w' →
        ∀ other, (Tracker.open_ sale.client w' a).1 ≠ .error (.alreadyOpen other)) ∧
      (p.run sale w).2.registry.held = [] := by
  intro uris keyring sale plan p w
  have loaded : uris.load (fun uri => .ok (.ofNat uri.length)) = .ok sale.keyring :=
    SecretUris.load_eq_ok (fun _ => rfl) (by decide)
  obtain ⟨visits, ended⟩ := opens_free loaded (w := w) rfl p
  refine ⟨loaded, ?_, ended⟩
  intro v visited a w' opens
  exact ((visits v visited).2.1 a w' opens).2

end Phase

end ShellSale
