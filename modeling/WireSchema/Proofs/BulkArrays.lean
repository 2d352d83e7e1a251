import WireSchema.Proofs.Buffers

/-!
# Arrays of numbers, at once or one by one

An array of numbers goes over the wire as a prefix and the numbers behind it. Code that handles the
array as one block and code that handles number after number must be able to talk to each other, so
they have to agree on more than the bytes of an array that fits:

* **writing**, both leave the same buffer with the same outcome, and an array that no prefix can
  announce is refused by both before the first byte;
* **reading**, both succeed on the same inputs, with the same numbers and at the same place, and all
  that can go wrong is that bytes run out. The block is checked once and the numbers one by one, so
  only the numbers in the message and the place of the failure tell them apart.
-/

namespace WireSchema.Wire

/-! ## Writing -/

namespace Writer

/-- Carries out operations one after the other, up to the first that is refused. -/
def performUntil (w : Writer) : List WriteOp → Writer × Option WireError
  | [] => (w, none)
  | op :: rest =>
    match w.perform op with
    | (next, none) => next.performUntil rest
    | (last, some e) => (last, some e)

theorem performUntil_cons_of_refused (w : Writer) {op : WriteOp} {e : WireError}
    (h : op.refusal? = some e) (rest : List WriteOp) :
    w.performUntil (op :: rest) = (w, some e) := by
  rw [performUntil, perform_eq, h]

/-- Operations of which none is refused are all carried out. -/
theorem performUntil_of_refusal?_eq_none (w : Writer) {ops : List WriteOp}
    (h : ∀ op ∈ ops, op.refusal? = none) :
    w.performUntil ops = (⟨w.data ++ ops.flatMap WriteOp.encoding⟩, none) := by
  induction ops generalizing w with
  | nil => rw [performUntil, List.flatMap_nil, List.append_nil]
  | cons op rest ih =>
    obtain ⟨hop, hrest⟩ := List.forall_mem_cons.mp h
    rw [performUntil, perform_eq, hop]
    dsimp only
    rw [ih _ hrest, List.flatMap_cons, List.append_assoc]

end Writer

/-- The operations that write an array number by number. -/
def WriteOp.oneByOne (values : List Scalar) : List WriteOp :=
  .length .array values.length :: values.map .scalar

theorem WriteOp.refusal?_length (kind : LengthKind) (n : Nat) :
    (WriteOp.length kind n).refusal? = if maxLength < n then some (.capacity kind n) else none :=
  rfl

theorem WriteOp.refusal?_scalars {kind : Numeric} (values : ScalarsOf kind) :
    (WriteOp.scalars kind values).refusal?
      = if maxLength < values.1.length then some (.capacity .array values.1.length) else none :=
  rfl

/-- **A block is written as its numbers are.** -/
theorem Writer.perform_scalars (w : Writer) {kind : Numeric} (values : ScalarsOf kind) :
    w.perform (.scalars kind values) = w.performUntil (WriteOp.oneByOne values.1) := by
  by_cases hlong : maxLength < values.1.length
  · -- both stop at the prefix
    have hblock := WriteOp.refusal?_scalars values
    have hlength := WriteOp.refusal?_length .array values.1.length
    rw [if_pos hlong] at hblock hlength
    rw [perform_eq, hblock, WriteOp.oneByOne, performUntil_cons_of_refused w hlength]
  · have hblock := WriteOp.refusal?_scalars values
    have hlength := WriteOp.refusal?_length .array values.1.length
    rw [if_neg hlong] at hblock hlength
    have hall : ∀ op ∈ WriteOp.oneByOne values.1, op.refusal? = none := by
      intro op hop
      rcases List.mem_cons.mp hop with rfl | hop
      · exact hlength
      · obtain ⟨x, _, rfl⟩ := List.mem_map.mp hop
        rfl
    rw [perform_eq, hblock, performUntil_of_refusal?_eq_none w hall, WriteOp.oneByOne,
      List.flatMap_cons, List.flatMap_map]
    rfl

/-! ## Reading -/

namespace Read

variable {α β : Type}

/-- All that can go wrong is that bytes run out. -/
def OnlyTruncates (m : Read α) : Prop :=
  ∀ (r r' : Reader) (e : WireError), m r = .error e r' → e.IsTruncated

theorem onlyTruncates_bytes (n : Nat) : OnlyTruncates (bytes n) := by
  intro r r' e h
  by_cases hle : n ≤ r.rest.length
  · rw [bytes_of_le hle] at h
    exact nomatch h
  · rw [bytes_of_lt (Nat.lt_of_not_le hle)] at h
    injection h with h _
    exact ⟨_, _, _, h.symm⟩

theorem OnlyTruncates.bind {m : Read α} {f : α → Read β} (hm : OnlyTruncates m)
    (hf : ∀ a, OnlyTruncates (f a)) : OnlyTruncates (m >>= f) := by
  intro r r' e h
  rw [bind_eq] at h
  split at h
  · exact hf _ _ _ _ h
  · rename_i e' r'' hfail
    injection h with h _
    exact h ▸ hm _ _ _ hfail

theorem onlyTruncates_pure (a : α) : OnlyTruncates (pure a : Read α) :=
  fun _ _ _ h => nomatch h

theorem onlyTruncates_scalars (kind : Numeric) : OnlyTruncates (scalars kind) := by
  refine OnlyTruncates.bind ?_ fun n => ?_
  · exact (onlyTruncates_bytes _).bind fun _ => onlyTruncates_pure _
  · exact (onlyTruncates_bytes _).bind fun _ => onlyTruncates_pure _

/-- Two ways to read the same succeed in the same way. -/
theorem Alike.ok_iff {m m' : Read α} (h : Alike m m') (r r' : Reader) (a : α) :
    m r = .ok a r' ↔ m' r = .ok a r' := by
  have hr := h r
  generalize m r = x at hr
  generalize m' r = x' at hr
  cases hr with
  | ok r'' hab => rw [hab]
  | error r₁ r₂ he =>
    constructor
    · intro hok
      exact nomatch hok
    · intro hok
      exact nomatch hok

theorem Alike.onlyTruncates {m m' : Read α} (h : Alike m m') (hm : OnlyTruncates m) :
    OnlyTruncates m' := by
  intro r r' e hfail
  have hr := h r
  rw [hfail] at hr
  cases hother : m r with
  | ok a r'' =>
    rw [hother] at hr
    exact nomatch hr
  | error e' r'' =>
    rw [hother] at hr
    obtain ⟨offset, needed, remaining, rfl⟩ := hm _ _ _ hother
    cases hr with
    | error _ _ hkind =>
      cases hkind with
      | truncated => exact ⟨_, _, _, rfl⟩

/-- A length-prefixed array of numbers, number by number. -/
def scalarsOneByOne (kind : Numeric) : Read (List Scalar) := do
  replicate (← length) (scalar kind)

end Read

end WireSchema.Wire
