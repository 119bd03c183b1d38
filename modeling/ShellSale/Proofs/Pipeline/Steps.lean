import Mathlib.Logic.Relation
import ShellSale.Proofs.Pipeline.Log

/-!
## The steps of work for one account

Whatever the pipeline does for an account without waiting comes down to five things: it asks the
node for the account's nonce, hands over a call of the account, claims the account or gives it back,
and tells the log. `World.Step` is one of these and `World.Steps` some of them in a row. A property
of worlds that each of the five keeps is thereby kept by all of a tracker's work.

Between the steps of work for several accounts time passes, tasks get their numbers, and the sale
writes lines into the log. With these, `World.Course` is all that ever happens to a world.
-/

namespace ShellSale

variable {σ κ : Type}

namespace World

/-- The world after a call of an account was handed over under a nonce. -/
def handOver (client : Client σ κ) (w : World σ κ) (a : AccountId) (nonce : Nat) (call : κ) :
    World σ κ :=
  let (taken, node) := client.handOver w.node w.now a nonce call
  let w := { w with node, aborts := w.aborts.schedule taken.firings, tasks := w.tasks + 1 }
  (w.record (.sent ⟨a, nonce, call⟩)).notify (.submitted a nonce)

theorem sent_handOver (client : Client σ κ) (w : World σ κ) (a : AccountId) (nonce : Nat)
    (call : κ) : (w.handOver client a nonce call).sent = w.sent ++ [⟨a, nonce, call⟩] := by
  rw [handOver, sent_notify, sent_record]
  rfl

theorem callsBy_handOver (client : Client σ κ) (w : World σ κ) (a b : AccountId) (nonce : Nat)
    (call : κ) :
    (w.handOver client b nonce call).callsBy a =
      w.callsBy a ++ if b = a then [(w.now, ⟨b, nonce, call⟩)] else [] := by
  have log : (w.handOver client b nonce call).log =
      w.log ++ ([(w.now, .sent ⟨b, nonce, call⟩)] ++ [(w.now, .notice (.submitted b nonce))]) :=
    List.append_assoc ..
  rw [callsBy_of_log log]
  by_cases same : b = a
  · simp [List.filterMap_cons, Entry.callBy?, Entry.sent?, Option.filter, same]
  · simp [List.filterMap_cons, Entry.callBy?, Entry.sent?, Option.filter, same]

/-- The world after an account was claimed and its nonce was read. -/
def opening (w : World σ κ) (a : AccountId) (nonce : Nat) (node : σ) : World σ κ :=
  { w with node, registry := ⟨a :: w.registry.held⟩ }.notify (.opened a nonce)

/-- One step of work for an account. -/
inductive Step (client : Client σ κ) (a : AccountId) (w : World σ κ) : World σ κ → Prop
  | ask : Step client a w { w with node := (client.nonce w.node w.now a).2 }
  | claim : Step client a w { w with registry := ⟨a :: w.registry.held⟩ }
  | release : Step client a w { w with registry := w.registry.release a }
  | tell (notices : List (Nat × Notice)) : Step client a w (w.notifyAt notices)
  | handOver (nonce : Nat) (call : κ) : Step client a w (w.handOver client a nonce call)

/-- Steps of work for an account, one after the other. -/
abbrev Steps (client : Client σ κ) (a : AccountId) : World σ κ → World σ κ → Prop :=
  Relation.ReflTransGen (Step client a)

theorem Step.now_eq {client : Client σ κ} {a : AccountId} {w w' : World σ κ}
    (h : Step client a w w') : w'.now = w.now := by
  cases h <;> rfl

namespace Steps

variable {client : Client σ κ} {a : AccountId}

/-- No time passes while somebody works. -/
theorem now_eq {w w' : World σ κ} (h : Steps client a w w') : w'.now = w.now := by
  induction h with
  | refl => rfl
  | tail _ step ih => exact step.now_eq.trans ih

/-- A single notice. -/
theorem notify (w : World σ κ) (n : Notice) : Steps client a w (w.notify n) :=
  .single (.tell [(w.now, n)])

theorem notifyAt (w : World σ κ) (ns : List (Nat × Notice)) : Steps client a w (w.notifyAt ns) :=
  .single (.tell ns)

end Steps

/-- One thing that happens to a world. -/
inductive Move (client : Client σ κ) (w : World σ κ) : World σ κ → Prop
  | work {a : AccountId} {w' : World σ κ} (step : Step client a w w') : Move client w w'
  | pass (wake : Nat) : Move client w { w with now := max w.now wake }
  | number (count : Nat) : Move client w { w with tasks := w.tasks + count }
  | line (l : LogLine) : Move client w (w.record (.line l))

/-- What happens to a world, one thing after the other. -/
abbrev Course (client : Client σ κ) : World σ κ → World σ κ → Prop :=
  Relation.ReflTransGen (Move client)

theorem Steps.course {client : Client σ κ} {a : AccountId} {w w' : World σ κ}
    (h : Steps client a w w') : Course client w w' := by
  induction h with
  | refl => exact .refl
  | tail _ step ih => exact ih.tail (.work step)

end World

namespace Tracker

variable {client : Client σ κ} {w : World σ κ}

/-- Opening the tracker of a free account whose nonce is read. -/
theorem open_of_nonce {a : AccountId} {nonce : Nat} {node : σ} (free : a ∉ w.registry.held)
    (answer : client.nonce w.node w.now a = (.ok nonce, node)) :
    Tracker.open_ client w a =
      (.ok { account := a, cursor := ⟨nonce⟩ }, w.opening a nonce node) := by
  rw [open_of_not_mem client free, answer]
  rfl

/-- Opening the tracker of a free account whose nonce cannot be read. -/
theorem open_of_unread {a : AccountId} {cause : String} {node : σ} (free : a ∉ w.registry.held)
    (answer : client.nonce w.node w.now a = (.error cause, node)) :
    Tracker.open_ client w a = (.error (.chainUnavailable a cause), { w with node }) := by
  rw [open_of_not_mem client free, answer]

/-- Opening a tracker, whether it succeeds or not, is work for its account. -/
theorem steps_open (client : Client σ κ) (w : World σ κ) (a : AccountId) :
    World.Steps client a w (Tracker.open_ client w a).2 := by
  by_cases held : a ∈ w.registry.held
  · rw [open_of_mem client held]
  · rw [open_of_not_mem client held]
    have asked : World.Steps client a w { w with node := (client.nonce w.node w.now a).2 } :=
      .single .ask
    split
    · rename_i cause node answer
      rw [answer] at asked
      exact asked
    · rename_i nonce node answer
      rw [answer] at asked
      exact (asked.tail .claim).trans (World.Steps.notify _ _)

/-- The submission of a call that is handed over under the next nonce. -/
def next (client : Client σ κ) (w : World σ κ) (t : Tracker) (call : κ) : Submission :=
  { account := t.account, nonce := t.cursor.next, serial := w.tasks + 1
    feed := (client.handOver w.node w.now t.account t.cursor.next call).1.feed }

/-- Submitting a call, in full. -/
theorem submit?_of_lt {t : Tracker} (below : t.cursor.next < NonceCursor.last) (call : κ) :
    t.submit? client w call =
      some (w.handOver client t.account t.cursor.next call,
        { t with
          cursor := ⟨t.cursor.next + 1⟩
          submissions := t.submissions ++ [t.next client w call] },
        t.next client w call) := by
  rw [submit?, NonceCursor.advance?, if_pos below]
  rfl

theorem steps_submit? {w' : World σ κ} {t t' : Tracker} {call : κ} {s : Submission}
    (h : t.submit? client w call = some (w', t', s)) : World.Steps client t.account w w' := by
  have below := (Submitted.of_submit? h).below
  rw [submit?_of_lt below] at h
  cases h
  exact .single (.handOver t.cursor.next call)

/-- Closing a tracker is work for its account. -/
theorem steps_close (client : Client σ κ) (w : World σ κ) (t : Tracker) :
    World.Steps client t.account w (t.close w) :=
  (World.Steps.notify w (.closed t.account t.unresolved)).tail .release

theorem steps_release (client : Client σ κ) (w : World σ κ) (t : Tracker) :
    World.Steps client t.account w (t.release w) :=
  .single .release

end Tracker

end ShellSale
