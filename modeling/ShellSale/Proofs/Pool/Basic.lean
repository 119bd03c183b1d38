import Mathlib.Data.List.Perm.Basic
import ShellSale.Proofs.Batch.Tasks

/-!
## Everybody who holds an account

A process has any number of callers and batch tasks, each with a tracker of its own or in the middle
of opening one. A `Pool` is all of them over one world. A `Move` is the smallest thing that one of
them, the node or the clock does, so a list of moves is an order in which everything happens.

* `Holder.kept`: whatever a holder does, it stays with its account or ends and gives just that
  account back, and it hands over no call of another account.
* `Pool.launch_eq`: a claim for a batch and the node's answer, with nothing in between, are
  `SignerTask.launch`.
-/

namespace ShellSale

variable {σ κ : Type}

/-- A batch to run as soon as its tracker is open. -/
structure Job (κ : Type) where
  /-- The number that tells tasks apart in messages. -/
  number : Nat
  mode : Mode
  options : Options
  calls : List κ

/-- The task of a batch whose tracker could not be opened. -/
def Job.failed (j : Job κ) (a : AccountId) (e : PipelineError) : SignerTask κ :=
  { account := a, number := j.number, state := .ended (.error e) }

/-- Who holds an account. -/
inductive Holder (κ : Type) where
  /-- Somebody who has claimed the account and waits for the node to report its nonce. -/
  | opening (account : AccountId) (job : Option (Job κ))
  /-- A caller with an open tracker. -/
  | caller (tracker : Tracker)
  /-- The task of a batch. -/
  | batch (number : Nat) (runner : Runner κ)

/-- What a holder does, or what happens to it. -/
inductive Work (κ : Type) where
  /-- The node answers the query of an opening. -/
  | answer
  | submit (call : κ)
  | resync
  /-- The node sends further reports about a submission. -/
  | deliver (index : Nat) (reports : Feed)
  | close
  /-- The opening is given up, the tracker is dropped, or the task ends by a panic. -/
  | drop
  /-- The wait of a task has ended. -/
  | resume

namespace Holder

/-- The account that is held. -/
def account : Holder κ → AccountId
  | opening a _ => a
  | caller t => t.account
  | batch _ r => r.tracker.account

/-- The open tracker of a holder. -/
def tracker? : Holder κ → Option Tracker
  | opening .. => none
  | caller t => some t
  | batch _ r => some r.tracker

/-- What comes of some work: the holder that is left, and the task that has ended. -/
structure Effect (σ κ : Type) where
  world : World σ κ
  holder? : Option (Holder κ)
  ended? : Option (SignerTask κ) := none

/-- A task that goes on holds its account; one that has ended does not. -/
def ofTask (p : World σ κ × SignerTask κ) : Effect σ κ :=
  match p.2.state with
  | .running r => { world := p.1, holder? := some (batch p.2.number r) }
  | .ended _ => { world := p.1, holder? := none, ended? := some p.2 }

/-- The task that a holder is. -/
def task (number : Nat) (r : Runner κ) : SignerTask κ :=
  { account := r.tracker.account, number, state := .running r }

/-- The node answers the query of an opening. -/
def answer (client : Client σ κ) (w : World σ κ) (a : AccountId) (job : Option (Job κ)) :
    Effect σ κ :=
  match client.nonce w.node w.now a with
  | (.error cause, node) =>
    { world := { w with node, registry := w.registry.release a }
      holder? := none
      ended? := job.map (·.failed a (.chainUnavailable a cause)) }
  | (.ok nonce, node) =>
    let w := { w with node }.notify (.opened a nonce)
    let t : Tracker := { account := a, cursor := ⟨nonce⟩ }
    match job with
    | none => { world := w, holder? := some (caller t) }
    | some j =>
      let (w, r) := Runner.start client w t j.mode j.options j.calls
      ofTask (SignerTask.conclude w a j.number r)

/-- What comes of some work of a holder; work that is not for it changes nothing. -/
def work (client : Client σ κ) (w : World σ κ) : Holder κ → Work κ → Effect σ κ
  | opening a job, .answer => answer client w a job
  | caller t, .submit call =>
    match t.submit? client w call with
    | none => { world := w, holder? := some (caller t) }
    | some (w, t, _) => { world := w, holder? := some (caller t) }
  | caller t, .resync =>
    let (_, w, t) := t.resync client w
    { world := w, holder? := some (caller t) }
  | caller t, .deliver index reports =>
    { world := w
      holder? := some (caller { t with
        submissions := t.submissions.modify index fun s => { s with feed := reports ++ s.feed } }) }
  | caller t, .close => { world := t.close w, holder? := none }
  | batch number r, .resume =>
    if (task number r).wake?.any (· ≤ w.now) then ofTask ((task number r).resume client w)
    else { world := w, holder? := some (batch number r) }
  | h, .drop => { world := { w with registry := w.registry.release h.account }, holder? := none }
  | h, _ => { world := w, holder? := some h }

/-- Takes the reports due by now. A task does so itself when its wait ends. -/
def settle (table : ErrorTable) (now : Nat) : Holder κ → Holder κ
  | caller t => caller (t.settle table now)
  | h => h

/-- What the reports due by now tell the log. -/
def notices (table : ErrorTable) (now : Nat) : Holder κ → List (Nat × Notice)
  | caller t => t.notices table now
  | _ => []

end Holder

/-- Everybody who holds an account, and the world they share. -/
structure Pool (σ κ : Type) where
  world : World σ κ
  holders : List (Holder κ) := []
  /-- The tasks that have ended, the latest first. -/
  ended : List (SignerTask κ) := []

/-- The smallest things that happen to a pool. -/
inductive Move (σ κ : Type) where
  /-- Somebody starts to open a tracker, maybe for a batch. -/
  | claim (a : AccountId) (job : Option (Job κ))
  /-- The holder of an account does something. -/
  | work (a : AccountId) (x : Work κ)
  /-- A caller waits for a submission of its tracker. -/
  | await (a : AccountId) (index : Nat) (level : Level) (timeout : Nat)
  | pass (ms : Nat)
  /-- The node changes, and so do the abort signals. -/
  | outside (node : σ) (aborts : AbortBoard)

namespace Pool

/-- A process that has just started. -/
def start (node : σ) : Pool σ κ :=
  { world := { node } }

/-- The accounts of the trackers that are open or being opened. -/
def alive (p : Pool σ κ) : List AccountId :=
  p.holders.map (·.account)

/-- The holder of an account. -/
def holder? (p : Pool σ κ) (a : AccountId) : Option (Holder κ) :=
  p.holders.find? fun h => h.account = a

/-- All but the holder of an account. -/
def others (p : Pool σ κ) (a : AccountId) : List (Holder κ) :=
  p.holders.eraseP fun h => h.account = a

/-- The open tracker of an account. -/
def tracker? (p : Pool σ κ) (a : AccountId) : Option Tracker :=
  (p.holder? a).bind Holder.tracker?

/-- Lets time pass to a moment, and takes all reports due by then. -/
def advance (client : Client σ κ) (p : Pool σ κ) (later : Nat) : Pool σ κ :=
  let reported := p.holders.flatMap (·.notices client.errors later)
  { p with
    world := { p.world.notifyAt reported with
      now := max p.world.now later
      aborts := p.world.aborts.settle later }
    holders := p.holders.map (·.settle client.errors later) }

/-- Somebody starts to open a tracker. If the account is held already, all that is left is the
result of the task that wanted it. -/
def claim (p : Pool σ κ) (a : AccountId) (job : Option (Job κ)) : Pool σ κ :=
  match p.world.registry.acquire? a with
  | some registry =>
    { p with world := { p.world with registry }, holders := .opening a job :: p.holders }
  | none =>
    { p with ended := (job.map (·.failed a (.alreadyOpen a))).toList ++ p.ended }

/-- The holder of an account does something. -/
def work (client : Client σ κ) (p : Pool σ κ) (a : AccountId) (x : Work κ) : Pool σ κ :=
  match p.holder? a with
  | none => p
  | some h =>
    let e := h.work client p.world x
    { world := e.world
      holders := e.holder?.toList ++ p.others a
      ended := e.ended?.toList ++ p.ended }

/-- A caller waits for a submission of its tracker. -/
def await (client : Client σ κ) (p : Pool σ κ) (a : AccountId) (index : Nat) (level : Level)
    (timeout : Nat) : Pool σ κ :=
  match (p.tracker? a).bind (·.submissions[index]?) with
  | none => p
  | some s =>
    let (outcome, wake) := s.wait client.errors level p.world.now timeout
    let p := p.advance client wake
    if outcome = .timedOut then { p with world := p.world.notify (.gaveUp a s.nonce timeout) }
    else p

/-- Makes a move. -/
def step (client : Client σ κ) (p : Pool σ κ) : Move σ κ → Pool σ κ
  | .claim a job => p.claim a job
  | .work a x => p.work client a x
  | .await a index level timeout => p.await client a index level timeout
  | .pass ms => p.advance client (p.world.now + ms)
  | .outside node aborts => { p with world := { p.world with node, aborts } }

/-- Makes moves one after the other. -/
def play (client : Client σ κ) (p : Pool σ κ) (moves : List (Move σ κ)) : Pool σ κ :=
  moves.foldl (step client) p

end Pool

/-! ### Holders -/

namespace Holder

/-- What every work of a holder of the account `a` keeps: it records nothing but notices and calls
of `a`, and its holder stays with `a` or ends and gives just that account back. -/
structure Kept (a : AccountId) (w : World σ κ) (e : Effect σ κ) : Prop where
  grows : World.GrowsTo (Entry.IsBy a) w e.world
  ledger : (∃ h, e.holder? = some h ∧ h.account = a ∧ e.world.registry = w.registry) ∨
    (e.holder? = none ∧ e.world.registry = w.registry.release a)

/-- Work that leaves the holder and the registry alone. -/
theorem Kept.stays {a : AccountId} {w w' : World σ κ} {h : Holder κ} (account : h.account = a)
    (grows : World.GrowsTo (Entry.IsBy a) w w') (registry : w'.registry = w.registry) :
    Kept a w { world := w', holder? := some h } where
  grows := grows
  ledger := Or.inl ⟨h, rfl, account, registry⟩

/-- Work after which there is no holder any more. -/
theorem Kept.ends {a : AccountId} {w w' : World σ κ} {ended? : Option (SignerTask κ)}
    (grows : World.GrowsTo (Entry.IsBy a) w w') (registry : w'.registry = w.registry.release a) :
    Kept a w { world := w', holder? := none, ended? } where
  grows := grows
  ledger := Or.inr ⟨rfl, registry⟩

theorem kept_ofTask {a : AccountId} {w : World σ κ} {p : World σ κ × SignerTask κ}
    (h : SignerTask.Step a w p.1 p.2) : Kept a w (ofTask p) := by
  have ledger := h.ledger
  unfold ofTask
  split
  · rename_i r state
    rw [SignerTask.holder?, state] at ledger
    rcases ledger with ⟨account, registry⟩ | ⟨ended, -⟩
    · exact .stays (Option.some.inj account) h.grows registry
    · cases ended
  · rename_i result state
    rw [SignerTask.holder?, state] at ledger
    rcases ledger with ⟨running, -⟩ | ⟨-, registry⟩
    · cases running
    · exact .ends h.grows registry

theorem kept_answer (client : Client σ κ) (w : World σ κ) (a : AccountId) (job : Option (Job κ)) :
    Kept a w (answer client w a job) := by
  unfold answer
  split
  · exact .ends (.of_eq rfl rfl) rfl
  · rename_i nonce node _
    have asked : World.GrowsTo (Entry.IsBy a) w { w with node } := .of_eq rfl rfl
    have opened := asked.trans (World.growsTo_notify _ (.opened a nonce) trivial)
    cases job with
    | none => exact .stays rfl opened rfl
    | some j =>
      obtain ⟨account, registry, grows⟩ := Runner.acts_start client
        ({ w with node }.notify (.opened a nonce)) { account := a, cursor := ⟨nonce⟩ } j.mode
        j.options j.calls
      refine kept_ofTask (SignerTask.Step.after ?_ registry (opened.trans grows))
      have step := SignerTask.step_conclude (Runner.start client
        ({ w with node }.notify (.opened a nonce)) { account := a, cursor := ⟨nonce⟩ } j.mode
        j.options j.calls).1 a j.number (Runner.start client
        ({ w with node }.notify (.opened a nonce)) { account := a, cursor := ⟨nonce⟩ } j.mode
        j.options j.calls).2
      rw [account] at step
      exact step

theorem kept_resume (client : Client σ κ) (w : World σ κ) (number : Nat) (r : Runner κ) {wake : Nat}
    (h : (task number r).wake? = some wake) :
    Kept r.tracker.account w (ofTask ((task number r).resume client w)) := by
  obtain ⟨a, holder, step⟩ := SignerTask.step_resume client w h
  obtain rfl : r.tracker.account = a := Option.some.inj holder
  exact kept_ofTask step

/-- Whatever a holder does, it stays with its account or gives just that account back. -/
theorem kept (client : Client σ κ) (w : World σ κ) (h : Holder κ) (x : Work κ) :
    Kept h.account w (h.work client w x) := by
  unfold work
  split
  · exact kept_answer client w _ _
  · -- a call is handed over, or there is no nonce left for it
    rename_i t call
    cases submitted : t.submit? client w call with
    | none => exact .stays rfl (.refl _ w) rfl
    | some p =>
      have spec := Tracker.Submitted.of_submit? submitted
      exact .stays spec.account spec.grows spec.registry
  · rename_i t
    rw [Tracker.resync]
    rcases client.nonce w.node w.now t.account with ⟨cause | nonce, node⟩
    · exact .stays rfl (.of_eq rfl rfl) rfl
    · have asked : World.GrowsTo (Entry.IsBy t.account) w { w with node } := .of_eq rfl rfl
      exact .stays rfl (asked.trans (World.growsTo_notify _ _ trivial)) rfl
  · exact .stays rfl (.refl _ w) rfl
  · exact .ends ((World.growsTo_notify w _ trivial).trans (.of_eq rfl rfl)) rfl
  · -- a task does something only when its wait is over
    rename_i number r
    split
    · rename_i due
      cases wake : (task number r).wake? with
      | none => rw [wake] at due; cases due
      | some at_ => exact kept_resume client w number r wake
    · exact .stays rfl (.refl _ w) rfl
  · exact .ends (.of_eq rfl rfl) rfl
  · exact .stays rfl (.refl _ w) rfl

@[simp] theorem account_settle (table : ErrorTable) (now : Nat) (h : Holder κ) :
    (h.settle table now).account = h.account := by
  cases h <;> rfl

end Holder

namespace Pool

/-! ### The holder of an account -/

/-- Whoever holds an account stands somewhere among the holders, and all the rest are the others. -/
theorem exists_of_holder? {p : Pool σ κ} {a : AccountId} {h : Holder κ}
    (found : p.holder? a = some h) :
    h.account = a ∧ p.holders.Perm (h :: p.others a) := by
  obtain ⟨same, front, back, split, before⟩ := List.find?_eq_some_iff_append.mp found
  refine ⟨of_decide_eq_true same, ?_⟩
  have rest : p.others a = front ++ back := by
    rw [others, split, List.eraseP_append_right]
    · exact congrArg (front ++ ·) (List.eraseP_cons_of_pos same)
    · intro h' mem
      simpa using before h' mem
  rw [rest, split]
  exact List.perm_middle

theorem holder?_eq_none_iff {p : Pool σ κ} {a : AccountId} : p.holder? a = none ↔ a ∉ p.alive := by
  rw [holder?, List.find?_eq_none, alive, List.mem_map, not_exists]
  simp

/-- A holder that has just been added is the one that is found. -/
theorem holder?_cons {p : Pool σ κ} {h : Holder κ} {rest : List (Holder κ)} {a : AccountId}
    (front : p.holders = h :: rest) (account : h.account = a) :
    p.holder? a = some h ∧ p.others a = rest := by
  have same : decide (h.account = a) = true := decide_eq_true account
  refine ⟨?_, ?_⟩
  · rw [holder?, front]
    exact List.find?_cons_of_pos same
  · rw [others, front]
    exact List.eraseP_cons_of_pos same

theorem work_of_holder? (client : Client σ κ) {p : Pool σ κ} {a : AccountId} {h : Holder κ}
    (found : p.holder? a = some h) (x : Work κ) :
    p.work client a x =
      { world := (h.work client p.world x).world
        holders := (h.work client p.world x).holder?.toList ++ p.others a
        ended := (h.work client p.world x).ended?.toList ++ p.ended } := by
  rw [work, found]

theorem alive_advance (client : Client σ κ) (p : Pool σ κ) (later : Nat) :
    (p.advance client later).alive = p.alive := by
  simp only [alive, advance, List.map_map, Function.comp_def, Holder.account_settle]

/-! ### Opening at once -/

theorem claim_of_not_mem {p : Pool σ κ} {a : AccountId} (free : a ∉ p.world.registry.held)
    (job : Option (Job κ)) :
    p.claim a job =
      { p with
        world := { p.world with registry := ⟨a :: p.world.registry.held⟩ }
        holders := .opening a job :: p.holders } := by
  rw [claim, Registry.acquire?_eq_some_iff.mpr ⟨free, rfl⟩]

theorem claim_of_mem {p : Pool σ κ} {a : AccountId} (held : a ∈ p.world.registry.held)
    (job : Option (Job κ)) :
    p.claim a job =
      { p with ended := (job.map (·.failed a (.alreadyOpen a))).toList ++ p.ended } := by
  have refused : p.world.registry.acquire? a = none := by
    rw [Registry.acquire?, if_pos (Registry.holds_iff.mpr held)]
  rw [claim, refused]

theorem work_of_claimed (client : Client σ κ) {p : Pool σ κ} {a : AccountId}
    (free : a ∉ p.world.registry.held) (job : Option (Job κ)) :
    ((p.step client (.claim a job)).step client (.work a .answer)) =
      let e := Holder.answer client { p.world with registry := ⟨a :: p.world.registry.held⟩ } a job
      { world := e.world
        holders := e.holder?.toList ++ p.holders
        ended := e.ended?.toList ++ p.ended } := by
  have claimed := claim_of_not_mem free job
  have front : (p.claim a job).holders = .opening a job :: p.holders := by rw [claimed]
  have account : (Holder.opening a job : Holder κ).account = a := rfl
  obtain ⟨found, rest⟩ := holder?_cons front account
  rw [step, step, work_of_holder? client found, rest, claimed]
  rfl

/-- A claim and its answer, with nothing in between, launch the task of a batch. -/
theorem launch_eq (client : Client σ κ) {p : Pool σ κ} {a : AccountId}
    (free : a ∉ p.world.registry.held) (j : Job κ) :
    (p.step client (.claim a (some j))).step client (.work a .answer) =
      let e := Holder.ofTask
        (SignerTask.launch client j.mode j.options p.world j.number ⟨a, j.calls⟩)
      { world := e.world
        holders := e.holder?.toList ++ p.holders
        ended := e.ended?.toList ++ p.ended } := by
  rw [work_of_claimed client free, SignerTask.launch, Tracker.open_of_not_mem client free,
    Holder.answer]
  rcases client.nonce p.world.node p.world.now a with ⟨cause | nonce, node⟩
  · simp [Registry.release, Holder.ofTask, Job.failed]
  · rfl

end Pool

end ShellSale
