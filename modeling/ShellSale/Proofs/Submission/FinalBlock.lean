import ShellSale.Chain.Progress
import ShellSale.Node.Pallets
import ShellSale.Proofs.Submission.Stream

/-!
## What a final block says about a call

A call succeeded in a final block, or it was reverted there, or the block keeps which of the two it
was. A connection is asked; `SuccessCheck.Sound` is what is relied on of its answers, and
`FinalBlock.sound_check` says that going through the events answers so. The reason of a failure
travels as five bytes and is decoded from them alone (`DispatchError.decode_failure`).
-/

namespace ShellSale

/-! ### What a final block says -/

/-- The failure that an event of a call tells. -/
def RuntimeEvent.failure? : RuntimeEvent → Option DispatchError
  | .extrinsicFailed error => some error
  | .named .. => none

namespace FinalBlock

/-- All events of the call can be had, and none tells of a failure. -/
def Succeeded (b : FinalBlock) : Prop :=
  ∃ events : List RuntimeEvent, b.events = .ok (events.map .ok) ∧ ∀ e ∈ events, e.failure? = none

/-- The events up to the first failure can be had, and this is the first failure. -/
def Reverted (b : FinalBlock) (error : DispatchError) : Prop :=
  ∃ (before : List RuntimeEvent) (later : List (Except String RuntimeEvent)),
    b.events = .ok (before.map .ok ++ .ok (.extrinsicFailed error) :: later) ∧
      ∀ e ∈ before, e.failure? = none

/-- The events cannot be fetched, or one cannot be decoded and none before tells of a failure. -/
def Unknown (b : FinalBlock) : Prop :=
  (∃ cause, b.events = .error cause) ∨
    ∃ (before : List RuntimeEvent) (cause : String) (later : List (Except String RuntimeEvent)),
      b.events = .ok (before.map .ok ++ .error cause :: later) ∧ ∀ e ∈ before, e.failure? = none

/-- A final block says one of three things about a call. -/
theorem succeeded_or (b : FinalBlock) : b.Succeeded ∨ (∃ error, b.Reverted error) ∨ b.Unknown := by
  obtain ⟨hash, events⟩ := b
  cases events with
  | error cause => exact Or.inr (Or.inr (Or.inl ⟨cause, rfl⟩))
  | ok events =>
    induction events with
    | nil => exact Or.inl ⟨[], rfl, by simp⟩
    | cons head rest ih =>
      match head with
      | .error cause => exact Or.inr (Or.inr (Or.inr ⟨[], cause, rest, rfl, by simp⟩))
      | .ok (.extrinsicFailed error) => exact Or.inr (Or.inl ⟨error, [], rest, rfl, by simp⟩)
      | .ok (.named pallet variant) =>
        -- the event says nothing, so the rest decides
        rcases ih with ⟨events, eq, none⟩ | ⟨error, before, later, eq, none⟩ |
          ⟨cause, eq⟩ | ⟨before, cause, later, eq, none⟩
        · obtain rfl := Except.ok.inj eq
          exact Or.inl ⟨.named pallet variant :: events, rfl, by simpa [RuntimeEvent.failure?]⟩
        · obtain rfl := Except.ok.inj eq
          exact Or.inr (Or.inl ⟨error, .named pallet variant :: before, later, rfl,
            by simpa [RuntimeEvent.failure?]⟩)
        · cases eq
        · obtain rfl := Except.ok.inj eq
          exact Or.inr (Or.inr (Or.inr ⟨.named pallet variant :: before, cause, later, rfl,
            by simpa [RuntimeEvent.failure?]⟩))

end FinalBlock

/-- What is relied on of the answers of a connection: a success is confirmed with the events of the
call, the first failure is handed out as the reason, and anything else is told apart from both. -/
structure SuccessCheck.Sound (check : SuccessCheck) : Prop where
  succeeded : ∀ b : FinalBlock, b.Succeeded → ∃ events, check b = .ok events
  reverted : ∀ (b : FinalBlock) (error : DispatchError), b.Reverted error →
    check b = .error (.runtime error)
  unknown : ∀ b : FinalBlock, b.Unknown → ∃ cause, check b = .error (.other cause)

theorem SuccessFault.findSome?_ofEvent?_append {before : List RuntimeEvent}
    (none : ∀ e ∈ before, e.failure? = none) (rest : List (Except String RuntimeEvent)) :
    (before.map Except.ok ++ rest).findSome? ofEvent? = rest.findSome? ofEvent? := by
  have silent : (before.map Except.ok).findSome? ofEvent? = Option.none := by
    rw [List.findSome?_eq_none_iff]
    intro e mem
    obtain ⟨e, own, rfl⟩ := List.mem_map.mp mem
    cases e with
    | extrinsicFailed error => cases none _ own
    | named pallet variant => rfl
  rw [List.findSome?_append, silent, Option.none_or]

/-- Going through the events up to the first one that speaks against a success is sound. -/
theorem FinalBlock.sound_check : SuccessCheck.Sound FinalBlock.check where
  succeeded := by
    rintro ⟨hash, _⟩ ⟨events, rfl, none⟩
    have silent := SuccessFault.findSome?_ofEvent?_append none []
    rw [List.append_nil] at silent
    exact ⟨events.map .ok, by simp only [check, silent, List.findSome?_nil]⟩
  reverted := by
    rintro ⟨hash, _⟩ error ⟨before, later, rfl, none⟩
    simp only [check, SuccessFault.findSome?_ofEvent?_append none]
    rfl
  unknown := by
    rintro ⟨hash, _⟩ (⟨cause, rfl⟩ | ⟨before, cause, later, rfl, none⟩)
    · exact ⟨cause, rfl⟩
    · refine ⟨cause, ?_⟩
      simp only [check, SuccessFault.findSome?_ofEvent?_append none]
      rfl

/-! ### Decoding a failure from its five bytes -/

/-- The reason that an error gives: the first byte is looked up among the pallets and the second one
among the errors of that pallet; what is not found keeps its numbers. -/
def DispatchError.reason (pallets : List Pallet) : DispatchError → FailureReason
  | .other message => .dispatch message
  | .pallet bytes =>
    let found := (pallets.find? fun p => p.index = bytes.pallet).bind fun p =>
      (p.errors.find? fun v => v.number = bytes.error.variant).map fun v => (p, v)
    match found with
    | some (p, v) => .pallet ⟨p.section_, v.name, " ".intercalate v.docs⟩
    | none =>
      .pallet ⟨"pallet" ++ toString bytes.pallet.toNat,
        "error" ++ toString bytes.error.variant.toNat, "Unknown module error"⟩

/-- The way of an error through the event of the pipeline loses nothing. -/
theorem DispatchError.decode_failure (pallets : List Pallet) (error : DispatchError) :
    error.failure.decode (Pallet.table pallets) = error.reason pallets := by
  cases error with
  | other message => rfl
  | pallet bytes =>
    simp only [failure, DispatchFailure.decode, reason, Pallet.table]
    cases (pallets.find? fun p => p.index = bytes.pallet) with
    | none => rfl
    | some p =>
      simp only [Option.bind_eq_bind, Option.bind_some]
      cases (p.errors.find? fun v => v.number = bytes.error.variant) <;> rfl

end ShellSale
