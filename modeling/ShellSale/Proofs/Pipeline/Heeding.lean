import ShellSale.Batch.Options
import ShellSale.Proofs.Pipeline.Steps

/-!
## Worlds that heed an abort signal

Whatever happens to a world, a raised signal stays raised. A course of a world heeds the signal if
no call is handed over while it is raised, so that after the moment at which it is raised, whether
between two steps or by a call that was just handed over, the calls are those there were.

* `World.aborted_of_course`: a raised signal is never taken back.
* `World.Heeding` is a course that heeds the signal; one that hands over nothing does so
  (`Course.heeding`).
* `World.Heeding.sent_of_aborted`: once the signal is raised, the calls are those there were.
* `World.Heeding.exists_calm`: every call was handed over while the signal was not raised.
-/

namespace ShellSale

variable {σ κ : Type}

namespace World

variable {client : Client σ κ} {o : Options} {w w' w'' : World σ κ}

/-! ### Raised signals -/

theorem aborted_later (w : World σ κ) {later : Nat} (le : w.now ≤ later) (o : Options)
    (raised : w.aborted o = true) : { w with now := later }.aborted o = true := by
  unfold aborted at raised ⊢
  split
  · rename_i none
    rw [none] at raised
    cases raised
  · rename_i handle some
    rw [some] at raised
    exact AbortBoard.isRaised_mono le raised

theorem aborted_handOver_of_aborted (client : Client σ κ) (w : World σ κ) (a : AccountId)
    (nonce : Nat) (call : κ) (o : Options) (raised : w.aborted o = true) :
    (w.handOver client a nonce call).aborted o = true := by
  unfold aborted at raised ⊢
  split
  · rename_i none
    rw [none] at raised
    cases raised
  · rename_i handle some
    rw [some] at raised
    exact AbortBoard.isRaised_schedule _ raised

/-- Nothing that happens takes a raised signal back. -/
theorem Move.aborted (move : Move client w w') (raised : w.aborted o = true) :
    w'.aborted o = true := by
  cases move with
  | pass wake => exact aborted_later w (Nat.le_max_left ..) o raised
  | number count => exact raised
  | line l => exact raised
  | work step =>
    cases step with
    | ask => exact raised
    | claim => exact raised
    | release => exact raised
    | tell notices => exact raised
    | handOver nonce call => exact aborted_handOver_of_aborted client w _ nonce call o raised

/-- **A raised signal stays raised.** -/
theorem aborted_of_course (course : Course client w w') (raised : w.aborted o = true) :
    w'.aborted o = true := by
  induction course with
  | refl => exact raised
  | tail _ move ih => exact move.aborted ih

/-! ### Calls along a course -/

theorem Move.exists_sent_eq (move : Move client w w') : ∃ new, w'.sent = w.sent ++ new := by
  cases move with
  | pass wake => exact ⟨[], (List.append_nil _).symm⟩
  | number count => exact ⟨[], (List.append_nil _).symm⟩
  | line l => exact ⟨[], (sent_line w l).trans (List.append_nil _).symm⟩
  | work step =>
    cases step with
    | ask => exact ⟨[], (List.append_nil _).symm⟩
    | claim => exact ⟨[], (List.append_nil _).symm⟩
    | release => exact ⟨[], (List.append_nil _).symm⟩
    | tell notices => exact ⟨[], (sent_notifyAt w notices).trans (List.append_nil _).symm⟩
    | handOver nonce call => exact ⟨_, sent_handOver client w _ nonce call⟩

theorem Course.exists_sent_eq (course : Course client w w') : ∃ new, w'.sent = w.sent ++ new := by
  induction course with
  | refl => exact ⟨[], (List.append_nil _).symm⟩
  | tail _ move ih =>
    obtain ⟨new, before⟩ := ih
    obtain ⟨more, step⟩ := move.exists_sent_eq
    exact ⟨new ++ more, by rw [step, before, List.append_assoc]⟩

/-- Whatever adds to the calls is the hand-over of a call. -/
theorem Move.exists_handOver (move : Move client w w') (added : w'.sent ≠ w.sent) :
    ∃ s : Sent κ, w' = w.handOver client s.account s.nonce s.call := by
  cases move with
  | pass wake => exact absurd rfl added
  | number count => exact absurd rfl added
  | line l => exact absurd (sent_line w l) added
  | @work a _ step =>
    cases step with
    | ask => exact absurd rfl added
    | claim => exact absurd rfl added
    | release => exact absurd rfl added
    | tell notices => exact absurd (sent_notifyAt w notices) added
    | handOver nonce call => exact ⟨⟨a, nonce, call⟩, rfl⟩

/-! ### Heeding -/

/-- One thing that happens to a world in which the signal of some options is heeded: while it is
raised no call is handed over. -/
structure HeedingMove (client : Client σ κ) (o : Options) (w w' : World σ κ) : Prop where
  move : Move client w w'
  heeds : w.aborted o = true → w'.sent = w.sent

/-- What happens to a world in which a signal is heeded, one thing after the other. -/
abbrev Heeding (client : Client σ κ) (o : Options) : World σ κ → World σ κ → Prop :=
  Relation.ReflTransGen (HeedingMove client o)

namespace Heeding

theorem course (h : Heeding client o w w') : Course client w w' :=
  Relation.ReflTransGen.mono (fun _ _ step => step.move) _ _ h

/-- Two sets of options with one signal are heeded alike. -/
theorem congr {o' : Options} (h : Heeding client o w w') (same : o'.abort = o.abort) :
    Heeding client o' w w' := by
  refine Relation.ReflTransGen.mono ?_ _ _ h
  intro u v step
  refine ⟨step.move, fun raised => step.heeds ?_⟩
  rw [World.aborted, same] at raised
  exact raised

/-- **Once the signal is raised** the calls are those there were. -/
theorem sent_of_aborted (h : Heeding client o w w') (raised : w.aborted o = true) :
    w'.sent = w.sent := by
  induction h with
  | refl => rfl
  | tail path step ih =>
    rw [step.heeds (aborted_of_course (course path) raised), ih]

theorem aborted (h : Heeding client o w w') (raised : w.aborted o = true) :
    w'.aborted o = true :=
  aborted_of_course h.course raised

/-- **Every call** was handed over at a point at which the signal was not raised. -/
theorem exists_calm (h : Heeding client o w w') :
    ∃ new, w'.sent = w.sent ++ new ∧ ∀ (k : Nat) s, new[k]? = some s →
      ∃ u, Heeding client o w u ∧ u.aborted o = false ∧ u.sent = w.sent ++ new.take k ∧
        Heeding client o (u.handOver client s.account s.nonce s.call) w' := by
  induction h with
  | refl => exact ⟨[], (List.append_nil _).symm, by simp⟩
  | @tail v w' path step ih =>
    obtain ⟨new, sent, calm⟩ := ih
    by_cases quiet : w'.sent = v.sent
    · refine ⟨new, quiet.trans sent, ?_⟩
      intro k s found
      obtain ⟨u, came, down, before, went⟩ := calm k s found
      exact ⟨u, came, down, before, went.tail step⟩
    · -- a step that is not quiet hands over a call, and does not heed a raised signal
      have down : v.aborted o = false := by
        rw [← Bool.not_eq_true]
        exact fun raised => quiet (step.heeds raised)
      obtain ⟨s, rfl⟩ := step.move.exists_handOver quiet
      refine ⟨new ++ [s], ?_, ?_⟩
      · rw [sent_handOver, sent, List.append_assoc]
      · intro k s' found
        rcases Nat.lt_or_ge k new.length with lt | ge
        · rw [List.getElem?_append_left lt] at found
          obtain ⟨u, came, down, before, went⟩ := calm k s' found
          rw [List.take_append_of_le_length lt.le]
          exact ⟨u, came, down, before, went.tail step⟩
        · rw [List.getElem?_append_right ge] at found
          obtain ⟨last, rfl⟩ : k = new.length ∧ s = s' := by
            rw [List.getElem?_singleton] at found
            split at found
            · exact ⟨by omega, Option.some.inj found⟩
            · cases found
          rw [List.take_left' last.symm]
          exact ⟨v, path, down, sent, .refl⟩

end Heeding

/-- A course that hands over nothing heeds every signal. -/
theorem Course.heeding (course : Course client w w') (sent : w'.sent = w.sent) (o : Options) :
    Heeding client o w w' := by
  induction course with
  | refl => exact .refl
  | @tail u v path move ih =>
    -- calls are never taken back, so each step has left them alone
    obtain ⟨new, before⟩ := Course.exists_sent_eq path
    obtain ⟨more, step⟩ := move.exists_sent_eq
    have none : new ++ more = [] := by
      rw [step, before, List.append_assoc] at sent
      exact List.append_right_eq_self.mp sent
    obtain ⟨rfl, rfl⟩ := List.append_eq_nil_iff.mp none
    rw [List.append_nil] at before step
    exact (ih before).tail ⟨move, fun _ => step⟩

theorem Steps.heeding {a : AccountId} (steps : Steps client a w w') (sent : w'.sent = w.sent)
    (o : Options) : Heeding client o w w' :=
  steps.course.heeding sent o

/-- A call that is handed over while the signal is not raised. -/
theorem heeding_handOver (w : World σ κ) (calm : w.aborted o = false) (a : AccountId) (nonce : Nat)
    (call : κ) : Heeding client o w (w.handOver client a nonce call) := by
  refine .single ⟨.work (.handOver nonce call), ?_⟩
  intro raised
  rw [calm] at raised
  cases raised

end World

end ShellSale
