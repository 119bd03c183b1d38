/-!
# Abort signals

A batch may be given a signal that tells it to submit nothing more. Signals are raised through
handles, known by name; a handle can be fired at once or by something that happens later. A raised
signal stays raised (`AbortBoard.isRaised_mono`).
-/

namespace ShellSale

/-- All abort signals: the handles that can still fire, those that have, and the firings to come. -/
structure AbortBoard where
  live : List String := []
  fired : List String := []
  due : List (Nat × String) := []

namespace AbortBoard

/-- Whether the signal of a handle is raised at a moment. -/
def isRaised (b : AbortBoard) (now : Nat) (handle : String) : Bool :=
  b.fired.contains handle ||
    (b.live.contains handle && b.due.any fun (at_, h) => at_ ≤ now && h == handle)

/-- Makes a new handle; its signal is not raised. -/
def create (b : AbortBoard) (handle : String) : AbortBoard :=
  { b with live := handle :: b.live, fired := b.fired.filter (· != handle) }

/-- Fires a handle, if it is still there. -/
def fire (b : AbortBoard) (handle : String) : AbortBoard :=
  if b.live.contains handle then { b with fired := handle :: b.fired } else b

/-- Drops a handle: nothing can fire it any more. -/
def drop (b : AbortBoard) (handle : String) : AbortBoard :=
  { b with live := b.live.filter (· != handle) }

/-- Adds firings to come. -/
def schedule (b : AbortBoard) (firings : List (Nat × String)) : AbortBoard :=
  { b with due := b.due ++ firings }

/-- Carries out the firings due by a moment. -/
def settle (b : AbortBoard) (now : Nat) : AbortBoard :=
  let (past, future) := b.due.partition fun (at_, _) => at_ ≤ now
  past.foldl (fun b (_, handle) => b.fire handle) { b with due := future }

/-- A raised signal stays raised as time passes. -/
theorem isRaised_mono {b : AbortBoard} {now later : Nat} {handle : String} (h : now ≤ later)
    (raised : b.isRaised now handle) : b.isRaised later handle := by
  simp only [isRaised, Bool.or_eq_true, Bool.and_eq_true, List.any_eq_true, decide_eq_true_eq,
    beq_iff_eq] at raised ⊢
  rcases raised with fired | ⟨live, ⟨at_, name⟩, mem, due, same⟩
  · exact .inl fired
  · exact .inr ⟨live, (at_, name), mem, Nat.le_trans due h, same⟩

/-- A raised signal stays raised when more firings are added. -/
theorem isRaised_schedule {b : AbortBoard} {now : Nat} {handle : String}
    (firings : List (Nat × String)) (raised : b.isRaised now handle) :
    (b.schedule firings).isRaised now handle := by
  simp only [isRaised, schedule, Bool.or_eq_true, Bool.and_eq_true, List.any_append] at raised ⊢
  rcases raised with fired | ⟨live, some⟩
  · exact .inl fired
  · exact .inr ⟨live, .inl some⟩

end AbortBoard

end ShellSale
