import ShellSale.Proofs.Batch.Alone

/-!
## Gathering the results of batches

When all tasks have ended, their results are gathered by account, and the first hard error in the
order of the batches is the error of the whole run.

* `AccountMap.ascending_insert`, `AccountMap.perm_insert`: the results ascend by account, one for
  each task with outcomes.
* `SignerTask.join_eq`: what is gathered, as a whole.
* `SignerTask.AnswerAlone` ties tasks to what their batches answer alone.
* `answer_of_runs`: the answer of a run does not depend on the order of its rounds.
* `runAcross_alone` is the main result: a run of batches against the runs of each alone.
-/

namespace ShellSale

variable {σ κ ν : Type}

/-! ### The order of accounts -/

theorem Bytes.foldl_bigEndian_injective {xs ys : List UInt8} (length : xs.length = ys.length)
    {m n : Nat} (h : xs.foldl (fun acc b => 256 * acc + b.toNat) m =
      ys.foldl (fun acc b => 256 * acc + b.toNat) n) : m = n ∧ xs = ys := by
  induction xs generalizing ys m n with
  | nil =>
    obtain rfl := List.eq_nil_of_length_eq_zero length.symm
    exact ⟨h, rfl⟩
  | cons x xs ih =>
    cases ys with
    | nil => cases length
    | cons y ys =>
      obtain ⟨head, rfl⟩ := ih (Nat.succ.inj length) h
      have head : 256 * m + x.toNat = 256 * n + y.toNat := head
      have small := x.toNat_lt
      have small' := y.toNat_lt
      have same : x.toNat = y.toNat := by omega
      exact ⟨by omega, by rw [UInt8.toNat_inj.mp same]⟩

/-- Different accounts have different numbers. -/
theorem AccountId.toNat_injective {a b : AccountId} (h : a.toNat = b.toNat) : a = b := by
  have length : a.toList.length = b.toList.length := by
    rw [AccountId.length_toList, AccountId.length_toList]
  exact AccountId.toList_injective (Bytes.foldl_bigEndian_injective length h).2

namespace AccountMap

variable {α : Type}

/-- The accounts of a map strictly ascend. -/
def Ascending (m : AccountMap α) : Prop :=
  m.Pairwise fun x y => x.1.toNat < y.1.toNat

theorem mem_insert {a : AccountId} {x : α} {m : AccountMap α} {e : AccountId × α}
    (h : e ∈ insert a x m) : e = (a, x) ∨ e ∈ m := by
  induction m with
  | nil => exact Or.inl (List.mem_singleton.mp h)
  | cons head rest ih =>
    obtain ⟨b, y⟩ := head
    unfold insert at h
    split at h
    · rcases List.mem_cons.mp h with rfl | mem
      · exact Or.inl rfl
      · exact Or.inr (List.mem_cons_of_mem _ mem)
    · split at h
      · exact List.mem_cons.mp h
      · rcases List.mem_cons.mp h with rfl | mem
        · exact Or.inr List.mem_cons_self
        · rcases ih mem with same | mem
          · exact Or.inl same
          · exact Or.inr (List.mem_cons_of_mem _ mem)

theorem ascending_insert (a : AccountId) (x : α) {m : AccountMap α} (h : Ascending m) :
    Ascending (insert a x m) := by
  induction m with
  | nil => exact List.pairwise_singleton ..
  | cons head rest ih =>
    obtain ⟨b, y⟩ := head
    obtain ⟨least, rest_ascending⟩ := List.pairwise_cons.mp h
    unfold insert
    split
    · rename_i same
      subst same
      exact List.pairwise_cons.mpr ⟨least, rest_ascending⟩
    · rename_i other
      split
      · rename_i le
        have lt : a.toNat < b.toNat :=
          lt_of_le_of_ne le fun same => other (AccountId.toNat_injective same)
        refine List.pairwise_cons.mpr ⟨?_, h⟩
        intro e mem
        rcases List.mem_cons.mp mem with rfl | mem
        · exact lt
        · exact lt.trans (least e mem)
      · rename_i gt
        refine List.pairwise_cons.mpr ⟨?_, ih rest_ascending⟩
        intro e mem
        rcases mem_insert mem with rfl | mem
        · exact Nat.lt_of_not_le gt
        · exact least e mem

/-- A new account is added to those that are there. -/
theorem perm_insert {a : AccountId} (x : α) {m : AccountMap α} (new : a ∉ m.map (·.1)) :
    (insert a x m).Perm ((a, x) :: m) := by
  induction m with
  | nil => exact .refl _
  | cons head rest ih =>
    obtain ⟨b, y⟩ := head
    rw [List.map_cons, List.mem_cons, not_or] at new
    unfold insert
    rw [if_neg new.1]
    split
    · exact .refl _
    · exact ((ih new.2).cons _).trans (.swap _ _ _)

end AccountMap

namespace SignerTask

/-- The outcomes of a task, under its account. -/
def result? (t : SignerTask κ) : Option (AccountId × List Outcome) :=
  match t.state with
  | .ended (.ok outcomes) => some (t.account, outcomes)
  | _ => none

/-- The hard error of a task. -/
def error? (t : SignerTask κ) : Option PipelineError :=
  match t.state with
  | .ended (.error e) => some e
  | _ => none

/-- What a run of batches answers of which this is the only task. -/
def answer (t : SignerTask κ) : Except PipelineError (AccountMap (List Outcome)) :=
  match t.error? with
  | some e => .error e
  | none => .ok t.result?.toList

/-- **What is gathered** from tasks of different accounts: the outcomes of all that have some, in
the order of accounts, and the first hard error; nothing is handed over meanwhile. -/
theorem join_eq (w : World σ κ) (results : AccountMap (List Outcome))
    (first : Option PipelineError) (tasks : List (SignerTask κ)) (ascending : results.Ascending)
    (distinct : (results.map (·.1) ++ tasks.map (·.account)).Nodup) :
    let p := join w results first tasks
    p.2.1.Ascending ∧ p.2.1.Perm (results ++ tasks.filterMap result?) ∧
      p.2.2 = first.or (tasks.findSome? error?) ∧ p.1.now = w.now ∧
      ∀ a, p.1.callsBy a = w.callsBy a := by
  induction tasks generalizing w results first with
  | nil =>
    refine ⟨ascending, by simp [join], by simp [join], rfl, fun _ => rfl⟩
  | cons t rest ih =>
    -- each task adds its outcomes, or its error, or nothing
    rw [List.map_cons] at distinct
    have later : (results.map (·.1) ++ rest.map (·.account)).Nodup :=
      distinct.sublist (List.Sublist.append_left (List.sublist_cons_self ..) _)
    unfold join
    cases state : t.state with
    | running r =>
      have silent : t.result? = none := by rw [result?, state]
      have fine : t.error? = none := by rw [error?, state]
      rw [List.filterMap_cons_none silent, List.findSome?_cons, fine]
      exact ih w results first ascending later
    | ended result =>
      cases result with
      | error e =>
        have silent : t.result? = none := by rw [result?, state]
        have failed : t.error? = some e := by rw [error?, state]
        rw [List.filterMap_cons_none silent, List.findSome?_cons, failed]
        obtain ⟨order, perm, error, now, calls⟩ :=
          ih (w.notify (errorNotice t.account e)) results (first.or (some e)) ascending later
        refine ⟨order, perm, ?_, now, ?_⟩
        · rw [error, Option.or_assoc]
          rfl
        · intro a
          rw [calls]
          exact World.callsBy_notifyAt w [(w.now, _)] a
      | ok outcomes =>
        have gives : t.result? = some (t.account, outcomes) := by rw [result?, state]
        have fine : t.error? = none := by rw [error?, state]
        have new : t.account ∉ results.map (·.1) := by
          intro mem
          exact (List.nodup_append.mp distinct).2.2 _ mem _ List.mem_cons_self rfl
        have inserted := AccountMap.perm_insert outcomes new
        -- the results stay apart from those of the tasks to come
        have keys : ((results.insert t.account outcomes).map (·.1) ++
            rest.map (·.account)).Nodup := by
          have perm := (inserted.map (·.1)).append_right (rest.map (·.account))
          refine (perm.nodup_iff).mpr ?_
          exact (List.perm_middle.nodup_iff).mp distinct
        obtain ⟨order, perm, error, now, calls⟩ :=
          ih w _ first (AccountMap.ascending_insert t.account outcomes ascending) keys
        rw [List.filterMap_cons_some gives, List.findSome?_cons, fine]
        refine ⟨order, perm.trans ?_, error, now, calls⟩
        exact (inserted.append_right _).trans List.perm_middle.symm

end SignerTask

/-! ### Runs of batches together and alone -/

/-- A search finds what the first element gives that gives anything. -/
theorem findSome?_eq_some_iff_getElem? {α β : Type} {f : α → Option β} {xs : List α} {y : β} :
    xs.findSome? f = some y ↔ ∃ (i : Nat) (x : α), xs[i]? = some x ∧ f x = some y ∧
      ∀ (j : Nat) (x' : α), xs[j]? = some x' → j < i → f x' = none := by
  rw [List.findSome?_eq_some_iff]
  constructor
  · rintro ⟨before, x, after, rfl, gives, silent⟩
    refine ⟨before.length, x, by simp, gives, ?_⟩
    intro j x' listed lt
    rw [List.getElem?_append_left lt] at listed
    exact silent x' (List.mem_of_getElem? listed)
  · rintro ⟨i, x, listed, gives, silent⟩
    obtain ⟨bound, rfl⟩ := List.getElem?_eq_some_iff.mp listed
    refine ⟨xs.take i, _, xs.drop (i + 1), ?_, gives, ?_⟩
    · rw [← List.drop_eq_getElem_cons bound, List.take_append_drop]
    · intro x' mem
      obtain ⟨j, listed'⟩ := List.mem_iff_getElem?.mp mem
      rw [List.getElem?_take] at listed'
      split at listed'
      · rename_i lt
        exact silent j x' listed' lt
      · cases listed'

section

variable {client : Client σ κ} {view : AccountId → σ → ν} {o : Options} {w : World σ κ}
  {batches : List (Batch κ)}

/-- What a run of batches answers, by its tasks. -/
theorem exists_gathered (client : Client σ κ) (w : World σ κ) (batches : List (Batch κ))
    (mode : Mode) (o : Options)
    (distinct : ((tasksOf client w batches mode o).2.map (·.account)).Nodup) :
    let p := tasksOf client w batches mode o
    let q := runAcross client w batches mode o
    ∃ results : AccountMap (List Outcome), results.Ascending ∧
      results.Perm (p.2.filterMap SignerTask.result?) ∧
      (q.1 = match p.2.findSome? SignerTask.error? with
        | some e => .error e
        | none => .ok results) ∧
      q.2.now = p.1.now ∧ ∀ a, q.2.callsBy a = p.1.callsBy a := by
  intro p q
  obtain ⟨ascending, perm, error, now, calls⟩ := SignerTask.join_eq p.1 [] none p.2
    List.Pairwise.nil distinct
  rw [Option.none_or] at error
  have answer : q = _ := runAcross_eq client w batches mode o
  generalize SignerTask.join p.1 [] none p.2 = joined at ascending perm error now calls answer
  obtain ⟨w', results, first⟩ := joined
  dsimp only at ascending perm error now calls answer
  refine ⟨results, ascending, perm, ?_⟩
  cases first with
  | none =>
    rw [← error, answer]
    exact ⟨rfl, now, calls⟩
  | some e =>
    rw [← error, answer]
    exact ⟨rfl, now, calls⟩

/-- What is gathered does not depend on the world. -/
theorem SignerTask.answer_join (w w' : World σ κ) (results : AccountMap (List Outcome))
    (first : Option PipelineError) (tasks : List (SignerTask κ)) :
    (join w results first tasks).2 = (join w' results first tasks).2 := by
  induction tasks generalizing w w' results first with
  | nil => rfl
  | cons t rest ih =>
    unfold join
    split
    · exact ih ..
    · exact ih ..
    · exact ih ..

/-- What a run of a single batch answers, by its task. -/
theorem runAcross_single {b : Batch κ} {mode : Mode} {t : SignerTask κ}
    (ended : (tasksOf client w [b] mode o).2 = [t]) :
    let q := runAcross client w [b] mode o
    q.1 = t.answer ∧ q.2.now = (tasksOf client w [b] mode o).1.now ∧
    ∀ a, q.2.callsBy a = (tasksOf client w [b] mode o).1.callsBy a := by
  obtain ⟨results, -, perm, answer, now, calls⟩ := exists_gathered client w [b] mode o
    (by rw [ended]; simp)
  refine ⟨?_, now, calls⟩
  rw [ended] at perm answer
  have results_eq : results = t.result?.toList := by
    cases gives : t.result? with
    | none =>
      rw [List.filterMap_cons_none gives] at perm
      exact List.perm_nil.mp perm
    | some entry =>
      rw [List.filterMap_cons_some gives] at perm
      exact List.perm_singleton.mp perm
  rw [answer, List.findSome?_singleton, results_eq]
  rfl

/-- A task that has ended has outcomes or a hard error. -/
theorem SignerTask.result?_of_ended {t : SignerTask κ}
    {result : Except PipelineError (List Outcome)} (state : t.state = .ended result)
    (fine : t.error? = none) : ∃ outcomes, t.result? = some (t.account, outcomes) := by
  cases result with
  | ok outcomes => exact ⟨outcomes, by rw [result?, state]⟩
  | error e =>
    rw [error?, state] at fine
    cases fine

/-- If no task had a hard error, there is an entry for each of them. -/
theorem SignerTask.keys_results {tasks : List (SignerTask κ)}
    (ended : ∀ t ∈ tasks, ∃ result, t.state = .ended result) (fine : ∀ t ∈ tasks, t.error? = none) :
    (tasks.filterMap result?).map (·.1) = tasks.map (·.account) := by
  induction tasks with
  | nil => rfl
  | cons t rest ih =>
    rw [List.forall_mem_cons] at ended fine
    obtain ⟨result, state⟩ := ended.1
    obtain ⟨outcomes, gives⟩ := result?_of_ended state fine.1
    rw [List.filterMap_cons_some gives, List.map_cons, List.map_cons, ih ended.2 fine.2]

/-! ### Tasks and the answers of their batches -/

/-- Tasks that have ended, and what the batch of each answers when it is run alone. -/
structure SignerTask.AnswerAlone (tasks : List (SignerTask κ)) (batches : List (Batch κ))
    (alone : Nat → Batch κ → Except PipelineError (AccountMap (List Outcome))) : Prop where
  ended : ∀ t ∈ tasks, ∃ result, t.state = .ended result
  accounts : tasks.map (·.account) = batches.map (·.account)
  answer : ∀ (i : Nat) b t, batches[i]? = some b → tasks[i]? = some t → alone i b = t.answer

namespace SignerTask.AnswerAlone

variable {tasks : List (SignerTask κ)}
  {alone : Nat → Batch κ → Except PipelineError (AccountMap (List Outcome))}

theorem exists_task (h : AnswerAlone tasks batches alone) {i : Nat} {b : Batch κ}
    (found : batches[i]? = some b) : ∃ t, tasks[i]? = some t ∧ t.account = b.account := by
  obtain ⟨t, listed, account⟩ := exists_getElem?_of_map_eq h.accounts.symm found
  exact ⟨t, listed, account.symm⟩

theorem error?_eq_some_iff (h : AnswerAlone tasks batches alone) {i : Nat} {b : Batch κ}
    {t : SignerTask κ} (found : batches[i]? = some b) (listed : tasks[i]? = some t)
    (e : PipelineError) : t.error? = some e ↔ alone i b = .error e := by
  rw [h.answer i b t found listed, SignerTask.answer]
  cases t.error? <;> simp

theorem error?_eq_none_iff (h : AnswerAlone tasks batches alone) {i : Nat} {b : Batch κ}
    {t : SignerTask κ} (found : batches[i]? = some b) (listed : tasks[i]? = some t) :
    t.error? = none ↔ ∃ results, alone i b = .ok results := by
  rw [h.answer i b t found listed, SignerTask.answer]
  cases t.error? <;> simp

/-- No task has a hard error if every batch answers outcomes alone. -/
theorem fine_iff (h : AnswerAlone tasks batches alone) :
    (∀ t ∈ tasks, t.error? = none) ↔
      ∀ i b, batches[i]? = some b → ∃ results, alone i b = .ok results := by
  constructor
  · intro fine i b found
    obtain ⟨t, listed, -⟩ := h.exists_task found
    exact (h.error?_eq_none_iff found listed).mp (fine t (List.mem_of_getElem? listed))
  · intro fine t mem
    obtain ⟨i, listed⟩ := List.mem_iff_getElem?.mp mem
    obtain ⟨b, found, -⟩ := exists_getElem?_of_map_eq h.accounts listed
    exact (h.error?_eq_none_iff found listed).mpr (fine i b found)

/-- The first hard error is that of the first batch that answers one alone. -/
theorem findSome?_error?_eq_some_iff (h : AnswerAlone tasks batches alone) (e : PipelineError) :
    tasks.findSome? error? = some e ↔
      ∃ i b, batches[i]? = some b ∧ alone i b = .error e ∧
        ∀ j b', batches[j]? = some b' → j < i → ∃ results, alone j b' = .ok results := by
  rw [findSome?_eq_some_iff_getElem?]
  constructor
  · rintro ⟨i, t, listed, error, before⟩
    obtain ⟨b, found, -⟩ := exists_getElem?_of_map_eq h.accounts listed
    refine ⟨i, b, found, (h.error?_eq_some_iff found listed e).mp error, ?_⟩
    intro j b' found' lt
    obtain ⟨t', listed', -⟩ := h.exists_task found'
    exact (h.error?_eq_none_iff found' listed').mp (before j t' listed' lt)
  · rintro ⟨i, b, found, error, before⟩
    obtain ⟨t, listed, -⟩ := h.exists_task found
    refine ⟨i, t, listed, (h.error?_eq_some_iff found listed e).mpr error, ?_⟩
    intro j t' listed' lt
    obtain ⟨b', found', -⟩ := exists_getElem?_of_map_eq h.accounts listed'
    exact (h.error?_eq_none_iff found' listed').mpr (before j b' found' lt)

/-- Without a hard error, each batch has the entry that it answers alone. -/
theorem exists_entry (h : AnswerAlone tasks batches alone) (fine : ∀ t ∈ tasks, t.error? = none)
    {i : Nat} {b : Batch κ} (found : batches[i]? = some b) :
    ∃ outcomes, (b.account, outcomes) ∈ tasks.filterMap result? ∧
      alone i b = .ok [(b.account, outcomes)] := by
  obtain ⟨t, listed, account⟩ := h.exists_task found
  have mem := List.mem_of_getElem? listed
  obtain ⟨result, state⟩ := h.ended t mem
  obtain ⟨outcomes, gives⟩ := result?_of_ended state (fine t mem)
  rw [account] at gives
  refine ⟨outcomes, List.mem_filterMap.mpr ⟨t, mem, gives⟩, ?_⟩
  rw [h.answer i b t found listed, SignerTask.answer, fine t mem, gives]
  rfl

end SignerTask.AnswerAlone

/-! ### Runs of batches -/

/-- Whatever the order of the rounds, what is gathered from the tasks in the end is what the run
answers. -/
theorem answer_of_runs (separate : client.Separate view) (spares : client.Spares o)
    (distinct : (batches.map (·.account)).Nodup)
    (free : ∀ b ∈ batches, b.account ∉ w.registry.held) {mode : Mode}
    {q : World σ κ × List (SignerTask κ)}
    (runs : SignerTask.Runs client (launchedOf client w batches mode o) q) :
    (runAcross client w batches mode o).1 = match (SignerTask.join q.1 [] none q.2).2 with
      | (_, some e) => .error e
      | (results, none) => .ok results := by
  obtain ⟨same, -⟩ := eq_tasksOf_of_runs separate spares distinct free runs
  rw [same, SignerTask.answer_join _ (tasksOf client w batches mode o).1, runAcross_eq]
  rcases SignerTask.join (tasksOf client w batches mode o).1 [] none
    (tasksOf client w batches mode o).2 with ⟨w', results, _ | e⟩
  · rfl
  · rfl

/-- **Batches together and alone.** Batches of different accounts that nobody holds are run on a
node that answers each account without regard to the others, none of whose calls fires the abort
handle. Then each account hands over the calls that it hands over when its batch is run alone, as a
task of the same number: under the same nonces and at the same moments, and its task ends with the
same result. When the run returns, all tasks have ended and all accounts are free again. The run
answers the outcomes by account, in ascending order and one entry for each batch, if every batch
alone answers outcomes, and otherwise the error of the first batch, in the order of the batches,
that answers one alone. -/
theorem runAcross_alone (separate : client.Separate view) (spares : client.Spares o)
    (distinct : (batches.map (·.account)).Nodup)
    (free : ∀ b ∈ batches, b.account ∉ w.registry.held) (mode : Mode) :
    let together := runAcross client w batches mode o
    let alone (i : Nat) (b : Batch κ) := runAcross client { w with tasks := w.tasks + i } [b] mode o
    (∀ i b, batches[i]? = some b →
      together.2.callsBy b.account = (alone i b).2.callsBy b.account ∧
        (∃ t result, (tasksOf client w batches mode o).2[i]? = some t ∧
          (tasksOf client { w with tasks := w.tasks + i } [b] mode o).2 = [t] ∧
          t.state = .ended result) ∧
        (alone i b).2.now ≤ together.2.now ∧ b.account ∉ together.2.registry.held) ∧
    ((∃ results, together.1 = .ok results) ↔
      ∀ i b, batches[i]? = some b → ∃ results, (alone i b).1 = .ok results) ∧
    (∀ results, together.1 = .ok results → results.Ascending ∧
      (results.map (·.1)).Perm (batches.map (·.account)) ∧
      ∀ i b, batches[i]? = some b → ∃ outcomes, (b.account, outcomes) ∈ results ∧
        (alone i b).1 = .ok [(b.account, outcomes)]) ∧
    ∀ e, together.1 = .error e ↔ ∃ i b, batches[i]? = some b ∧ (alone i b).1 = .error e ∧
      ∀ j b', batches[j]? = some b' → j < i → ∃ results, (alone j b').1 = .ok results := by
  intro together alone
  let tasks := (tasksOf client w batches mode o).2
  have runs := runs_tasksOf client w batches mode o
  have ended : ∀ t ∈ tasks, ∃ result, t.state = .ended result :=
    tasksOf_ended client w batches mode o
  have accounts : tasks.map (·.account) = batches.map (·.account) := accounts_tasksOf ..
  -- each task answers as the batch of its account does alone
  have answers : SignerTask.AnswerAlone tasks batches fun i b => (alone i b).1 := by
    refine { ended, accounts, answer := ?_ }
    intro i b t found listed
    obtain ⟨t', listed', single, -⟩ := alone_of_runs separate spares distinct free runs found
    obtain rfl := Option.some.inj (listed.symm.trans listed')
    exact (runAcross_single single).1
  obtain ⟨results, ascending, perm, answer, now, calls⟩ := exists_gathered client w batches mode o
    (show (tasks.map (·.account)).Nodup from accounts ▸ distinct)
  have answer : together.1 = match tasks.findSome? SignerTask.error? with
      | some e => .error e
      | none => .ok results := answer
  have fine_iff : (∃ results, together.1 = .ok results) ↔ ∀ t ∈ tasks, t.error? = none := by
    rw [answer, ← List.findSome?_eq_none_iff]
    cases tasks.findSome? SignerTask.error? <;> simp
  refine ⟨?_, fine_iff.trans answers.fine_iff, ?_, ?_⟩
  -- calls and moments: the task ends as it does alone, and gathering adds nothing
  · intro i b found
    obtain ⟨t, listed, single, -, called, late⟩ :=
      alone_of_runs separate spares distinct free runs found
    obtain ⟨result, state⟩ := ended t (List.mem_of_getElem? listed)
    obtain ⟨-, now', calls'⟩ := runAcross_single single
    refine ⟨?_, ⟨t, result, listed, single, state⟩, ?_, ?_⟩
    · rw [show together.2.callsBy b.account = _ from calls _, called]
      exact (calls' _).symm
    · exact now'.trans_le (late.trans_eq now.symm)
    · rw [(held_runAcross client w batches mode o).mem_iff]
      exact free b (List.mem_of_getElem? found)
  -- results: no task has an error, so the entries are those of all tasks
  · intro gathered ok
    have fine := fine_iff.mp ⟨gathered, ok⟩
    obtain rfl : results = gathered := by
      rw [answer, List.findSome?_eq_none_iff.mpr fine] at ok
      exact Except.ok.inj ok
    refine ⟨ascending, ?_, ?_⟩
    · have keys := perm.map (·.1)
      rw [SignerTask.keys_results ended fine, accounts] at keys
      exact keys
    · intro i b found
      obtain ⟨outcomes, entry, single⟩ := answers.exists_entry fine found
      exact ⟨outcomes, perm.mem_iff.mpr entry, single⟩
  -- errors: the first one in the order of the batches
  · intro e
    rw [← answers.findSome?_error?_eq_some_iff e, answer]
    cases tasks.findSome? SignerTask.error? <;> simp

end

/-- Two signers of which one cannot read its nonce, while an abort signal keeps the other one from a
second call: the run ends with the error of the first one, and the other one hands over what it
hands over alone. -/
theorem runAcross_alone_unavailable :
    let node : Client Unit Nat :=
      { nonce := fun _ _ a => (if a = .ofNat 1 then .error "down" else .ok 7, ())
        handOver := fun _ now _ _ delay =>
          ({ feed := [(now + delay, .event (.finalized (.ofNat 1) []))] }, ())
        errors := fun _ _ => none }
    let w : World Unit Nat :=
      { node := (), aborts := { live := ["stop"], due := [(20, "stop")] } }
    let o : Options := { abort := some "stop" }
    let batches : List (Batch Nat) := [⟨.ofNat 1, [10]⟩, ⟨.ofNat 2, [30, 30]⟩]
    let together := runAcross node w batches .sequential o
    together.1 = .error (.chainUnavailable (.ofNat 1) "down") ∧
      together.2.callsBy (.ofNat 2) =
        (runAcross node { w with tasks := 1 } [⟨.ofNat 2, [30, 30]⟩] .sequential o).2.callsBy
          (.ofNat 2) := by
  intro node w o batches together
  have separate : node.Separate fun (_ : AccountId) (_ : Unit) => () :=
    ⟨fun _ _ => ⟨rfl, rfl⟩, fun _ _ _ _ => ⟨rfl, rfl⟩, fun _ _ _ => rfl, fun _ _ _ _ _ => rfl⟩
  have spares : node.Spares o := by
    intro handle _ n now a nonce call firing fired
    cases fired
  have distinct : (batches.map (·.account)).Nodup := by decide
  obtain ⟨each, -, -, error⟩ := runAcross_alone separate spares distinct (w := w)
    (fun _ _ held => by cases held) .sequential
  refine ⟨?_, (each 1 _ rfl).1⟩
  have alone : (runAcross node w [⟨.ofNat 1, [10]⟩] .sequential o).1 =
      .error (.chainUnavailable (.ofNat 1) "down") := by
    rw [runAcross_eq, tasksOf, SignerTask.drive_of_none rfl]
    rfl
  exact (error _).mpr ⟨0, _, rfl, alone, fun _ _ _ early => absurd early (Nat.not_lt_zero _)⟩

end ShellSale
