import ShellSale.Proofs.Sale.Groups
import ShellSale.Proofs.Sale.Reports

/-!
## What a step of the users tells the log

A step of the users ends with a line on the calls that were not accepted. The line counts outcomes,
and there is one outcome for each call that was handed over, but none for a call that was left out
under a raised signal. So the line says that all is done if nothing was handed over at all, and it
is the line that it would be if it counted the calls left out exactly if there are none.

* `Sale.verdict_inj`: different counts make different lines.
* `Sale.exists_reports_users`: what the outcomes of a step report.
* `Sale.users_verdict` is the main result.
-/

namespace ShellSale

variable {σ : Type}

namespace Sale

/-! ### The last line -/

/-- Different counts make different lines. -/
theorem verdict_inj (step : String) {m n : Nat} : verdict step m = verdict step n ↔ m = n := by
  refine ⟨?_, congrArg _⟩
  intro same
  unfold verdict at same
  split at same
  · split at same
    · omega
    · cases same
  · split at same
    · cases same
    · have text := (LogLine.mk.inj same).2
      rw [String.append_left_inj, String.append_right_inj, Nat.toString_eq_ofList_toDigits,
        Nat.toString_eq_ofList_toDigits] at text
      -- the digits of a number give the number back
      have digits := congrArg (fun cs => Nat.ofDigitChars 10 cs 0) (String.ofList_inj.mp text)
      simp only [Nat.ofDigitChars_ten_toDigits] at digits
      exact digits

/-- The line says that all is done if it counts nothing. -/
theorem verdict_eq_done_iff (step : String) (n : Nat) :
    verdict step n = ⟨.info, "✅ " ++ step ++ "...Done"⟩ ↔ n = 0 :=
  verdict_inj step (n := 0)

theorem rejected_eq_zero_iff (outcomes : AccountMap (List Outcome)) :
    rejected outcomes = 0 ↔ ∀ x ∈ outcomes.flatMap (·.2), x.isAccepted = true := by
  rw [rejected, List.countP_eq_zero]
  simp

/-! ### Whole steps -/

/-- **What the outcomes of a step report**: one entry for each batch, with an outcome for each call
that the batch has handed over. -/
theorem exists_reports_users {sale : Sale σ} (distinct : Function.Injective sale.keyring.account)
    {w : World σ Call} {step : String} {mode : Mode} {calls : List (AccountName × Call)}
    {outcomes : AccountMap (List Outcome)} (ok : (sale.users w step mode calls).1 = .ok outcomes) :
    ∃ entries, outcomes.Perm entries ∧
      List.Forall₂ (fun b entry => entry.1 = b.account ∧
        ∃ first subs, b.Report sale.client mode sale.options first w
          (sale.users w step mode calls).2 subs entry.2)
        (batches sale.keyring calls) entries := by
  obtain ⟨-, entries, perm, starts⟩ := exists_starts_users (nodup_batches distinct calls) ok
  refine ⟨entries, perm, starts.imp ?_⟩
  rintro b entry ⟨account, first, subs, report, -⟩
  exact ⟨account, first, subs, report⟩

/-- **What the last line of a step of the users tells.** There is one outcome for each call that was
handed over, so it says that all is done exactly if all of these were accepted. Calls that were left
out have no outcomes; there are some only if the signal is raised. The line is the one that counts
these calls too exactly if there are none, so it tells that all calls of the step were accepted only
together with the number of outcomes. -/
theorem users_verdict {sale : Sale σ} (distinct : Function.Injective sale.keyring.account)
    (policy : sale.options.policy = .collectAll) {w : World σ Call} {step : String} {mode : Mode}
    {calls : List (AccountName × Call)} {outcomes : AccountMap (List Outcome)}
    (ok : (sale.users w step mode calls).1 = .ok outcomes) :
    let u := sale.users w step mode calls
    let told := outcomes.flatMap (·.2)
    let line := verdict step (rejected outcomes)
    (∃ log, u.2.log = log ++ [(u.2.now, .line line)]) ∧
      (∃ entries, outcomes.Perm entries ∧ List.Forall₂ (fun b entry => entry.1 = b.account ∧
        ∃ first subs, b.Report sale.client mode sale.options first w u.2 subs entry.2 ∧
          entry.2.length = subs.length) (batches sale.keyring calls) entries) ∧
      told.length ≤ calls.length ∧
      (told.length < calls.length → u.2.aborted sale.options = true) ∧
      (line = ⟨.info, "✅ " ++ step ++ "...Done"⟩ ↔ ∀ x ∈ told, x.isAccepted = true) ∧
      (line = verdict step (rejected outcomes + (calls.length - told.length)) ↔
        told.length = calls.length) ∧
      ((∀ b ∈ batches sale.keyring calls, ∃ given, (b.account, given) ∈ outcomes ∧
          (∀ x ∈ given, x.isAccepted = true) ∧ given.length = b.calls.length) ↔
        line = ⟨.info, "✅ " ++ step ++ "...Done"⟩ ∧ told.length = calls.length) := by
  intro u told line
  obtain ⟨w', -, world⟩ := users_of_ok ok
  obtain ⟨entries, perm, reports⟩ := exists_reports_users distinct ok
  have accounts : List.Forall₂ (fun entry b => entry.1 = b.account)
      entries (batches sale.keyring calls) := (reports.imp fun _ _ report => report.1).flip
  -- no batch has more outcomes than calls
  have bounded : List.Forall₂ (fun entry b => entry.2.length ≤ b.calls.length)
      entries (batches sale.keyring calls) := by
    refine (reports.imp ?_).flip
    rintro b entry ⟨-, first, subs, report⟩
    exact (report.length_eq policy).trans_le report.length_le
  obtain ⟨le, same⟩ := length_flatMap_of_forall₂ bounded
  have count : told.length = (entries.flatMap (·.2)).length := (perm.flatMap_right _).length_eq
  rw [length_flatMap_batches, ← count] at le same
  have done : line = ⟨.info, "✅ " ++ step ++ "...Done"⟩ ↔ ∀ x ∈ told, x.isAccepted = true :=
    (verdict_eq_done_iff step _).trans (rejected_eq_zero_iff outcomes)
  refine ⟨?_, ?_, le, ?_, done, ?_, ?_⟩
  · refine ⟨w'.log ++ (remarks step outcomes).map fun l => (w'.now, .line l), ?_⟩
    rw [show u.2 = _ from world, foldl_lines, List.map_append, ← List.append_assoc]
    rfl
  · refine ⟨entries, perm, reports.imp ?_⟩
    rintro b entry ⟨account, first, subs, report⟩
    exact ⟨account, first, subs, report, report.length_eq policy⟩
  · intro short
    by_contra calm
    -- no batch has left out a call, so the counts are the same
    refine short.ne (same.mpr (reports.imp ?_).flip)
    rintro b entry ⟨-, first, subs, report⟩
    have whole : subs.length = b.calls.length :=
      report.length_le.eq_of_not_lt fun less => calm (report.aborted policy less)
    exact (report.length_eq policy).trans whole
  -- the line counts rejections alone, so it is right just if no call is missing
  · refine (verdict_inj step).trans ?_
    omega
  · simp only [perm.mem_iff]
    rw [forall_batch_iff (P := fun given b => (∀ x ∈ given, x.isAccepted = true) ∧
      given.length = b.calls.length) (nodup_batches distinct calls) accounts,
      List.forall₂_and_left, ← same, done]
    refine and_congr_left fun _ => ?_
    simp only [told, List.forall_mem_flatMap, perm.mem_iff]

/-- A step of two calls that is interrupted as soon as the first one is handed over. The second is
left out, and the last line says that all is done. -/
theorem users_verdict_left_out :
    let sale : Sale Unit :=
      { client :=
          { nonce := fun _ _ _ => (.ok 0, ())
            handOver := fun _ now _ _ _ =>
              ({ feed := [(now, .event (.finalized (.ofNat 1) []))], firings := [(now, "stop")] },
                ())
            errors := fun _ _ => none }
        storage :=
          { collection := fun _ _ => .ok none, era := fun _ _ => .ok 0
            owned := fun _ _ _ _ => .ok [], food := fun _ _ _ => .ok [] }
        keyring := ⟨fun name => .ofNat name.index⟩
        options := { timeout := 1000, abort := some "stop" } }
    let calls : List (AccountName × Call) := [(.bob, .claimSpirit), (.charlie, .claimSpirit)]
    let w : World Unit Call := { node := (), aborts := { live := ["stop"] } }
    let u := sale.users w "Claim spirits" .pipelined calls
    ∃ outcomes, u.1 = .ok outcomes ∧ (outcomes.flatMap (·.2)).length = 1 ∧
      ∃ log, u.2.log = log ++ [(u.2.now, .line ⟨.info, "✅ Claim spirits...Done"⟩)] := by
  intro sale calls w u
  have distinct : Function.Injective sale.keyring.account :=
    Keyring.injective_of_collision? (by decide)
  -- the signal is raised as bob's call is handed over, so charlie's call is skipped
  let bob := sale.keyring.account .bob
  let charlie := sale.keyring.account .charlie
  let outcomes : AccountMap (List Outcome) := [(bob, [.accepted (.ofNat 1)]), (charlie, [])]
  have ok : u.1 = .ok outcomes := by
    have users : u = _ := users_eq ..
    rw [userTasks, tasksOf, SignerTask.drive_of_some rfl, SignerTask.drive_of_none rfl] at users
    rw [users]
    rfl
  obtain ⟨⟨log, ends⟩, -, -, -, done, -⟩ := users_verdict distinct rfl ok
  refine ⟨outcomes, ok, rfl, log, ?_⟩
  rw [ends, done.mpr (by decide)]
  rfl

end Sale

end ShellSale
