import Mathlib.Order.Nat
import ShellSale.Pipeline.Tracker

/-!
## The log of the world and the steps of a tracker

Everything the pipeline does is recorded in a log that only grows. `World.GrowsTo` says of two
worlds that the second comes later, with what kind of entries in between; `World.sentBy` are the
calls of one account among them. The steps of a tracker are inverted here once:

* `Tracker.open_of_mem`, `Tracker.open_of_not_mem`: a claimed account is refused without a query,
  and a free one is claimed exactly if its nonce can be read.
* `Tracker.submit?_eq_none_iff`, `Tracker.Submitted.of_submit?`: when a call is handed over, and
  everything that this changes.
-/

namespace ShellSale

variable {σ κ : Type}

/-! ### Entries of the log -/

namespace Entry

/-- The call that an entry records, if it records one. -/
def sent? : Entry κ → Option (Sent κ)
  | .sent s => some s
  | _ => none

/-- The line that an entry records, if it records one. -/
def line? : Entry κ → Option LogLine
  | .line l => some l
  | _ => none

/-- The call of an account that an entry of the log records, with its moment. -/
def callBy? (a : AccountId) (e : Nat × Entry κ) : Option (Nat × Sent κ) :=
  (e.2.sent?.filter fun s => s.account = a).map fun s => (e.1, s)

/-- An entry that work for one account leaves: a notice, or a call of that account. -/
def IsBy (a : AccountId) : Entry κ → Prop
  | .notice _ => True
  | .line _ => False
  | .sent s => s.account = a

/-- An entry that is no line. -/
def IsSilent (e : Entry κ) : Prop :=
  e.line? = none

theorem IsBy.isSilent {a : AccountId} {e : Entry κ} (h : e.IsBy a) : e.IsSilent := by
  cases e with
  | line l => exact h.elim
  | notice n => rfl
  | sent s => rfl

end Entry

namespace World

/-- Time has not gone back, and the log has only got entries of one kind behind those it had. -/
structure GrowsTo (P : Entry κ → Prop) (w w' : World σ κ) : Prop where
  now_le : w.now ≤ w'.now
  log : ∃ new, w'.log = w.log ++ new ∧ ∀ e ∈ new, P e.2

namespace GrowsTo

variable {P Q : Entry κ → Prop} {w w' w'' : World σ κ}

theorem refl (P : Entry κ → Prop) (w : World σ κ) : GrowsTo P w w where
  now_le := Nat.le_refl _
  log := ⟨[], (List.append_nil _).symm, by simp⟩

theorem trans (h : GrowsTo P w w') (h' : GrowsTo P w' w'') : GrowsTo P w w'' where
  now_le := h.now_le.trans h'.now_le
  log := by
    obtain ⟨new, log, all⟩ := h.log
    obtain ⟨new', log', all'⟩ := h'.log
    refine ⟨new ++ new', by rw [log', log, List.append_assoc], ?_⟩
    intro e mem
    rcases List.mem_append.mp mem with mem | mem
    · exact all e mem
    · exact all' e mem

theorem mono (h : GrowsTo P w w') (imp : ∀ e, P e → Q e) : GrowsTo Q w w' where
  now_le := h.now_le
  log := by
    obtain ⟨new, log, all⟩ := h.log
    exact ⟨new, log, fun e mem => imp _ (all e mem)⟩

/-- A world that differs in nothing the log or the clock shows. -/
theorem of_eq (now : w'.now = w.now) (log : w'.log = w.log) : GrowsTo P w w' where
  now_le := now.ge
  log := ⟨[], by rw [log, List.append_nil], by simp⟩

/-- Time passes. -/
theorem later (P : Entry κ → Prop) (w : World σ κ) (wake : Nat) :
    GrowsTo P w { w with now := max w.now wake } where
  now_le := Nat.le_max_left ..
  log := ⟨[], (List.append_nil _).symm, by simp⟩

end GrowsTo

theorem growsTo_record {P : Entry κ → Prop} (w : World σ κ) {e : Entry κ} (h : P e) :
    GrowsTo P w (w.record e) where
  now_le := Nat.le_refl _
  log := ⟨[(w.now, e)], rfl, by simpa using h⟩

theorem growsTo_notify {P : Entry κ → Prop} (w : World σ κ) (n : Notice) (h : P (.notice n)) :
    GrowsTo P w (w.notify n) :=
  growsTo_record w h

theorem growsTo_notifyAt {P : Entry κ → Prop} (w : World σ κ) (ns : List (Nat × Notice))
    (h : ∀ n, P (.notice n)) : GrowsTo P w (w.notifyAt ns) where
  now_le := Nat.le_refl _
  log := by
    refine ⟨_, rfl, ?_⟩
    intro e mem
    obtain ⟨⟨at_, n⟩, _, rfl⟩ := List.mem_map.mp mem
    exact h n

/-! ### Calls in the log -/

theorem sent_eq (w : World σ κ) : w.sent = w.log.filterMap fun e => e.2.sent? := by
  unfold sent
  congr 1
  funext e
  obtain ⟨at_, e⟩ := e
  cases e <;> rfl

theorem sent_of_log {w w' : World σ κ} {new : List (Nat × Entry κ)} (h : w'.log = w.log ++ new) :
    w'.sent = w.sent ++ new.filterMap fun e => e.2.sent? := by
  rw [sent_eq, sent_eq, h, List.filterMap_append]

@[simp] theorem sent_notify (w : World σ κ) (n : Notice) : (w.notify n).sent = w.sent := by
  rw [sent_of_log (show (w.notify n).log = w.log ++ [(w.now, .notice n)] from rfl)]
  exact List.append_nil _

@[simp] theorem sent_notifyAt (w : World σ κ) (ns : List (Nat × Notice)) :
    (w.notifyAt ns).sent = w.sent := by
  rw [sent_of_log (w := w) rfl, List.filterMap_map, List.filterMap_eq_nil_iff.mpr, List.append_nil]
  intro n _
  rfl

@[simp] theorem sent_line (w : World σ κ) (l : LogLine) : (w.record (.line l)).sent = w.sent := by
  rw [sent_of_log (show (w.record (.line l)).log = w.log ++ [(w.now, .line l)] from rfl)]
  exact List.append_nil _

theorem sent_record (w : World σ κ) (s : Sent κ) : (w.record (.sent s)).sent = w.sent ++ [s] := by
  rw [sent_of_log (show (w.record (.sent s)).log = w.log ++ [(w.now, .sent s)] from rfl)]
  rfl

/-- The calls of one account that were handed over so far, oldest first. -/
def sentBy (w : World σ κ) (a : AccountId) : List (Sent κ) :=
  w.sent.filter fun s => s.account = a

theorem sentBy_of_sent {w w' : World σ κ} (h : w'.sent = w.sent) (a : AccountId) :
    w'.sentBy a = w.sentBy a := by
  rw [sentBy, sentBy, h]

theorem sentBy_append {w w' : World σ κ} {new : List (Sent κ)} (h : w'.sent = w.sent ++ new)
    (a : AccountId) : w'.sentBy a = w.sentBy a ++ new.filter fun s => s.account = a := by
  rw [sentBy, sentBy, h, List.filter_append]

/-- The calls of an account, each with the moment at which it was handed over. -/
def callsBy (w : World σ κ) (a : AccountId) : List (Nat × Sent κ) :=
  w.log.filterMap (Entry.callBy? a)

theorem callsBy_of_log {w w' : World σ κ} {new : List (Nat × Entry κ)} (h : w'.log = w.log ++ new)
    (a : AccountId) : w'.callsBy a = w.callsBy a ++ new.filterMap (Entry.callBy? a) := by
  rw [callsBy, callsBy, h, List.filterMap_append]

theorem callsBy_notifyAt (w : World σ κ) (ns : List (Nat × Notice)) (a : AccountId) :
    (w.notifyAt ns).callsBy a = w.callsBy a := by
  rw [callsBy_of_log (w := w) rfl, List.filterMap_map, List.filterMap_eq_nil_iff.mpr,
    List.append_nil]
  intro n _
  rfl

theorem callsBy_line (w : World σ κ) (l : LogLine) (a : AccountId) :
    (w.record (.line l)).callsBy a = w.callsBy a := by
  rw [callsBy_of_log (show (w.record (.line l)).log = w.log ++ [(w.now, .line l)] from rfl)]
  exact List.append_nil _

/-- These are the calls of the account. -/
theorem map_callsBy (w : World σ κ) (a : AccountId) : (w.callsBy a).map (·.2) = w.sentBy a := by
  rw [callsBy, List.map_filterMap, sentBy, sent_eq, List.filter_filterMap]
  congr 1
  funext e
  rw [Entry.callBy?, Option.map_map]
  exact Option.map_id'

namespace GrowsTo

variable {w w' : World σ κ} {a b : AccountId}

theorem exists_sent_eq {P : Entry κ → Prop} (h : GrowsTo P w w') :
    ∃ new, w'.sent = w.sent ++ new := by
  obtain ⟨new, log, _⟩ := h.log
  exact ⟨_, sent_of_log log⟩

/-- What work for an account adds to the calls are calls of that account. -/
theorem account_of_isBy (h : GrowsTo (Entry.IsBy a) w w') :
    ∃ new, w'.sent = w.sent ++ new ∧ ∀ s ∈ new, s.account = a := by
  obtain ⟨new, log, all⟩ := h.log
  refine ⟨_, sent_of_log log, ?_⟩
  intro s mem
  obtain ⟨⟨at_, e⟩, added, sent⟩ := List.mem_filterMap.mp mem
  cases e with
  | sent s' =>
    obtain rfl := Option.some.inj sent
    exact all _ added
  | notice n => cases sent
  | line l => cases sent

/-- Work for one account hands over no call of another. -/
theorem sentBy_of_ne (h : GrowsTo (Entry.IsBy a) w w') (ne : b ≠ a) :
    w'.sentBy b = w.sentBy b := by
  obtain ⟨new, sent, all⟩ := h.account_of_isBy
  have others : new.filter (fun s => s.account = b) = [] := by
    rw [List.filter_eq_nil_iff]
    intro s mem same
    exact ne ((of_decide_eq_true same).symm.trans (all s mem))
  rw [sentBy_append sent, others, List.append_nil]

/-- Work for one account hands over just the calls that are new among its own. -/
theorem sent_of_sentBy (h : GrowsTo (Entry.IsBy a) w w') {new : List (Sent κ)}
    (own : w'.sentBy a = w.sentBy a ++ new) : w'.sent = w.sent ++ new := by
  obtain ⟨added, sent, all⟩ := h.account_of_isBy
  have kept : added.filter (fun s => s.account = a) = added := by
    rw [List.filter_eq_self]
    intro s mem
    exact decide_eq_true (all s mem)
  have split : w'.sentBy a = w.sentBy a ++ added := by
    rw [sentBy_append sent, kept]
  rw [sent, List.append_cancel_left (split.symm.trans own)]

end GrowsTo

end World

/-! ### Calls under consecutive nonces -/

/-- Calls of an account under consecutive nonces. -/
def Sent.series (a : AccountId) : Nat → List κ → List (Sent κ)
  | _, [] => []
  | n, call :: rest => ⟨a, n, call⟩ :: series a (n + 1) rest

namespace Sent

theorem series_append (a : AccountId) (n : Nat) (calls more : List κ) :
    series a n (calls ++ more) = series a n calls ++ series a (n + calls.length) more := by
  induction calls generalizing n with
  | nil => rfl
  | cons call rest ih =>
    rw [List.cons_append, series, series, ih, List.cons_append, List.length_cons,
      show n + 1 + rest.length = n + (rest.length + 1) by omega]

theorem map_nonce_series (a : AccountId) (n : Nat) (calls : List κ) :
    (series a n calls).map (·.nonce) = List.range' n calls.length := by
  induction calls generalizing n with
  | nil => rfl
  | cons call rest ih => rw [series, List.map_cons, ih, List.length_cons, List.range'_succ]

theorem map_call_series (a : AccountId) (n : Nat) (calls : List κ) :
    (series a n calls).map (·.call) = calls := by
  induction calls generalizing n with
  | nil => rfl
  | cons call rest ih => rw [series, List.map_cons, ih]

end Sent

namespace Tracker

/-! ### Opening -/

/-- A claimed account is refused at once: nothing is asked and nothing changes. -/
theorem open_of_mem (client : Client σ κ) {w : World σ κ} {a : AccountId}
    (h : a ∈ w.registry.held) :
    Tracker.open_ client w a = (.error (.alreadyOpen a), w) := by
  have refused : w.registry.acquire? a = none := by
    rw [Registry.acquire?, if_pos (Registry.holds_iff.mpr h)]
  rw [Tracker.open_, refused]

/-- A free account is claimed if its nonce can be read, and stays free if not. -/
theorem open_of_not_mem (client : Client σ κ) {w : World σ κ} {a : AccountId}
    (h : a ∉ w.registry.held) :
    Tracker.open_ client w a =
      match client.nonce w.node w.now a with
      | (.error cause, node) => (.error (.chainUnavailable a cause), { w with node })
      | (.ok nonce, node) =>
        (.ok { account := a, cursor := ⟨nonce⟩ },
          { w with node, registry := ⟨a :: w.registry.held⟩ }.notify (.opened a nonce)) := by
  have claimed : w.registry.acquire? a = some ⟨a :: w.registry.held⟩ :=
    Registry.acquire?_eq_some_iff.mpr ⟨h, rfl⟩
  unfold Tracker.open_
  split
  · rename_i refused
    rw [claimed] at refused
    cases refused
  · rename_i registry acquired
    obtain rfl : (⟨a :: w.registry.held⟩ : Registry) = registry :=
      Option.some.inj (claimed.symm.trans acquired)
    rfl

/-- Opening a tracker records nothing but notices. -/
theorem growsTo_open (client : Client σ κ) (w : World σ κ) (a : AccountId) :
    World.GrowsTo (Entry.IsBy a) w (Tracker.open_ client w a).2 := by
  by_cases held : a ∈ w.registry.held
  · rw [open_of_mem client held]
    exact .refl _ w
  · rw [open_of_not_mem client held]
    split
    · exact .of_eq rfl rfl
    · rename_i nonce node _
      have claimed : World.GrowsTo (Entry.IsBy a) w
          { w with node, registry := ⟨a :: w.registry.held⟩ } := .of_eq rfl rfl
      exact claimed.trans (World.growsTo_notify _ (.opened a nonce) trivial)

@[simp] theorem sent_open (client : Client σ κ) (w : World σ κ) (a : AccountId) :
    (Tracker.open_ client w a).2.sent = w.sent := by
  by_cases held : a ∈ w.registry.held
  · rw [open_of_mem client held]
  · rw [open_of_not_mem client held]
    split
    · rfl
    · exact World.sent_notify _ _

/-- A new tracker is for the account it was asked for and has no submissions. -/
theorem open_eq_ok {client : Client σ κ} {w w' : World σ κ} {a : AccountId} {t : Tracker}
    (h : Tracker.open_ client w a = (.ok t, w')) :
    a ∉ w.registry.held ∧ w'.registry.held = a :: w.registry.held ∧ t.account = a ∧
      t.submissions = [] ∧ w'.now = w.now := by
  by_cases held : a ∈ w.registry.held
  · rw [open_of_mem client held] at h
    cases h
  · rw [open_of_not_mem client held] at h
    split at h
    · cases h
    · cases h
      exact ⟨held, rfl, rfl, rfl, rfl⟩

/-- Whoever fails to open a tracker leaves the registry as it was. -/
theorem registry_of_open_error {client : Client σ κ} {w w' : World σ κ} {a : AccountId}
    {e : PipelineError} (h : Tracker.open_ client w a = (.error e, w')) :
    w'.registry = w.registry := by
  by_cases held : a ∈ w.registry.held
  · rw [open_of_mem client held] at h
    cases h
    rfl
  · rw [open_of_not_mem client held] at h
    split at h
    · cases h
      rfl
    · cases h

/-! ### Submitting -/

/-- All that handing over a call changes. -/
structure Submitted (client : Client σ κ) (w : World σ κ) (t : Tracker) (call : κ)
    (w' : World σ κ) (t' : Tracker) (s : Submission) : Prop where
  below : t.cursor.next < NonceCursor.last
  cursor : t'.cursor.next = t.cursor.next + 1
  account : t'.account = t.account
  submissions : t'.submissions = t.submissions ++ [s]
  submission : s.account = t.account ∧ s.nonce = t.cursor.next ∧ s.watch = {}
  registry : w'.registry = w.registry
  now : w'.now = w.now
  grows : World.GrowsTo (Entry.IsBy t.account) w w'
  sent : w'.sent = w.sent ++ [⟨t.account, t.cursor.next, call⟩]

theorem submit?_eq_none_iff {client : Client σ κ} {w : World σ κ} {t : Tracker} {call : κ} :
    t.submit? client w call = none ↔ NonceCursor.last ≤ t.cursor.next := by
  unfold submit? NonceCursor.advance?
  by_cases below : t.cursor.next < NonceCursor.last
  · simp [below]
  · simp only [below, ↓reduceIte, true_iff]
    omega

theorem Submitted.of_submit? {client : Client σ κ} {w w' : World σ κ} {t t' : Tracker} {call : κ}
    {s : Submission} (h : t.submit? client w call = some (w', t', s)) :
    Submitted client w t call w' t' s := by
  unfold submit? at h
  split at h
  · cases h
  · rename_i nonce cursor advanced
    obtain ⟨below, rfl, rfl⟩ := NonceCursor.advance?_eq_some_iff.mp advanced
    cases h
    exact {
      below
      cursor := rfl
      account := rfl
      submissions := rfl
      submission := ⟨rfl, rfl, rfl⟩
      registry := rfl
      now := rfl
      grows := by
        have handedOver : Entry.IsBy t.account (.sent ⟨t.account, t.cursor.next, call⟩) := rfl
        refine .trans (.trans (.of_eq ?_ ?_) (World.growsTo_record _ handedOver))
          (World.growsTo_notify _ (.submitted t.account t.cursor.next) trivial)
        · rfl
        · rfl
      sent := by
        rw [World.sent_notify, World.sent_record]
        rfl }

theorem Submitted.sentBy {client : Client σ κ} {w w' : World σ κ} {t t' : Tracker} {call : κ}
    {s : Submission} (h : Submitted client w t call w' t' s) :
    w'.sentBy t.account = w.sentBy t.account ++ [⟨t.account, t.cursor.next, call⟩] := by
  rw [World.sentBy_append h.sent]
  simp

end Tracker

end ShellSale
