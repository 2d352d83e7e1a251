import WireSchema.Proofs.Blocks

/-!
# What is written to a buffer is read back

A buffer is written to by operations in any order, and some of them are refused: those that announce
a length above what a prefix can hold. A refused operation leaves no trace. So the bytes in the end
are those of the operations that were carried out, one after the other, and every one of them has a
counterpart that reads, which knows **what kind** of thing was written but not its value. The
counterparts in their order give back everything that was written, floats as the bits they were, and
there is nothing left when the last of them is done.
-/

namespace WireSchema.Wire

/-! ## Operations -/

/-- The numbers of an array, all of one kind. -/
abbrev ScalarsOf (kind : Numeric) : Type :=
  { values : List Scalar // ∀ x ∈ values, x.kind = kind }

/-- An operation on a buffer that is written to. -/
inductive WriteOp where
  | byte (value : UInt8)
  | bytes (values : List UInt8)
  | bool (value : Bool)
  | presence (value : Bool)
  | scalar (value : Scalar)
  | string (text : String)
  | length (kind : LengthKind) (n : Nat)
  | scalars (kind : Numeric) (values : ScalarsOf kind)

/-- An operation on a buffer that is read from. -/
inductive ReadOp where
  | byte
  | bytes (n : Nat)
  | bool
  | presence
  | scalar (kind : Numeric)
  | string
  | length
  | scalars (kind : Numeric)
  deriving DecidableEq, Repr

/-- What an operation that reads gives. -/
inductive Datum where
  | byte (value : UInt8)
  | bytes (values : List UInt8)
  | flag (value : Bool)
  | scalar (value : Scalar)
  | text (text : String)
  | length (n : Nat)
  | scalars (values : List Scalar)
  deriving DecidableEq

/-- Carries out an operation that reads. -/
def ReadOp.run : ReadOp → Read Datum
  | .byte => .byte <$> Read.byte
  | .bytes n => .bytes <$> Read.bytes n
  | .bool => .flag <$> Read.bool
  | .presence => .flag <$> Read.presence
  | .scalar kind => .scalar <$> Read.scalar kind
  | .string => .text <$> Read.string
  | .length => .length <$> Read.length
  | .scalars kind => .scalars <$> Read.scalars kind

namespace WriteOp

/-- What the operation puts on the wire. -/
def item : WriteOp → Item
  | .byte value => .byte value
  | .bytes values => .bytes values
  | .bool value => .bool value
  | .presence value => .bool value
  | .scalar value => .scalar value
  | .string text => .string text
  | .length kind n => .length kind n
  | .scalars _ values => .scalars values.1

/-- What the operation was given. -/
def datum : WriteOp → Datum
  | .byte value => .byte value
  | .bytes values => .bytes values
  | .bool value => .flag value
  | .presence value => .flag value
  | .scalar value => .scalar value
  | .string text => .text text
  | .length _ n => .length n
  | .scalars _ values => .scalars values.1

/-- The operation that reads what this one writes. -/
def counterpart : WriteOp → ReadOp
  | .byte _ => .byte
  | .bytes values => .bytes values.length
  | .bool _ => .bool
  | .presence _ => .presence
  | .scalar value => .scalar value.kind
  | .string _ => .string
  | .length _ _ => .length
  | .scalars kind _ => .scalars kind

/-- The length that the operation announces, if it does. -/
def announced? : WriteOp → Option (LengthKind × Nat)
  | .string text => some (.string, text.utf8ByteSize)
  | .length kind n => some (kind, n)
  | .scalars _ values => some (.array, values.1.length)
  | _ => none

/-- The reason to refuse the operation, if there is one. -/
def refusal? (op : WriteOp) : Option WireError :=
  match op.announced? with
  | some (kind, n) => if maxLength < n then some (.capacity kind n) else none
  | none => none

/-- The operations that are not refused. -/
def carriedOut (ops : List WriteOp) : List WriteOp :=
  ops.filter fun op => op.refusal?.isNone

/-- The bytes of the operation: a prefix if it announces a length, and what it was given. -/
def encoding : WriteOp → List UInt8
  | .byte value => [value]
  | .bytes values => values
  | .bool value => flag value
  | .presence value => flag value
  | .scalar value => value.encode
  | .string text => lengthPrefix text.utf8ByteSize ++ textBytes text
  | .length _ n => lengthPrefix n
  | .scalars _ values => lengthPrefix values.1.length ++ values.1.flatMap Scalar.encode

end WriteOp

namespace Writer

/-- Carries out one operation; a buffer stays as it is if the operation is refused. -/
def perform (w : Writer) (op : WriteOp) : Writer × Option WireError :=
  match w.write op.item with
  | .ok w' => (w', none)
  | .error e => (w, some e)

/-- Carries out operations one after the other, with the outcome of each. -/
def performAll (w : Writer) : List WriteOp → Writer × List (Option WireError)
  | [] => (w, [])
  | op :: rest =>
    let (next, outcome) := w.perform op
    let (last, outcomes) := next.performAll rest
    (last, outcome :: outcomes)

end Writer

/-! ## Writing -/

theorem checkedPrefix_eq (kind : LengthKind) (n : Nat) :
    checkedPrefix kind n
      = if maxLength < n then .error (.capacity kind n) else .ok (lengthPrefix n) := by
  unfold checkedPrefix
  by_cases h : n ≤ maxLength
  · rw [if_pos h, if_neg (by omega)]
  · rw [if_neg h, if_pos (by omega)]

theorem WriteOp.refusal?_eq_some {op : WriteOp} {e : WireError} : op.refusal? = some e ↔
    ∃ kind n, op.announced? = some (kind, n) ∧ maxLength < n ∧ e = .capacity kind n := by
  unfold refusal?
  cases op.announced? with
  | none => simp
  | some announced =>
    obtain ⟨kind, n⟩ := announced
    by_cases h : maxLength < n
    · simp [h, eq_comm]
    · simp [h]

/-- **An operation is refused for its length and for nothing else.** -/
theorem WriteOp.encode_item (op : WriteOp) :
    op.item.encode = match op.refusal? with
      | some e => .error e
      | none => .ok op.encoding := by
  cases op with
  | string text =>
    rw [item, Item.encode, checkedPrefix_eq]
    by_cases h : maxLength < text.utf8ByteSize
    · simp [refusal?, announced?, h, Except.map]
    · simp [refusal?, announced?, h, Except.map, encoding]
  | length kind n =>
    rw [item, Item.encode, checkedPrefix_eq]
    by_cases h : maxLength < n
    · simp [refusal?, announced?, h]
    · simp [refusal?, announced?, h, encoding]
  | scalars kind values =>
    rw [item, Item.encode, checkedPrefix_eq]
    by_cases h : maxLength < values.1.length
    · simp [refusal?, announced?, h, Except.map]
    · simp [refusal?, announced?, h, Except.map, encoding]
  | _ => rfl

namespace Writer

/-- **What one operation does**: it adds its bytes, or it is refused and adds nothing. -/
theorem perform_eq (w : Writer) (op : WriteOp) :
    w.perform op = match op.refusal? with
      | some e => (w, some e)
      | none => (⟨w.data ++ op.encoding⟩, none) := by
  rw [perform, write, op.encode_item]
  cases op.refusal? <;> rfl

/-- The outcome of an operation does not depend on what was written before. -/
theorem outcome_perform (w : Writer) (op : WriteOp) : (w.perform op).2 = op.refusal? := by
  rw [perform_eq]
  cases op.refusal? <;> rfl

theorem outcomes_performAll (w : Writer) (ops : List WriteOp) :
    (w.performAll ops).2 = ops.map WriteOp.refusal? := by
  induction ops generalizing w with
  | nil => rfl
  | cons op rest ih =>
    rw [performAll, List.map_cons]
    dsimp only
    rw [outcome_perform, ih]

/-- **What a row of operations leaves**: the bytes of those that were carried out, in order. -/
theorem data_performAll (w : Writer) (ops : List WriteOp) :
    (w.performAll ops).1.data
      = w.data ++ (WriteOp.carriedOut ops).flatMap WriteOp.encoding := by
  unfold WriteOp.carriedOut
  induction ops generalizing w with
  | nil => rw [performAll, List.filter_nil, List.flatMap_nil, List.append_nil]
  | cons op rest ih =>
    rw [performAll]
    dsimp only
    rw [ih, perform_eq]
    cases h : op.refusal? with
    | some e => rw [List.filter_cons_of_neg (by rw [h]; simp)]
    | none =>
      -- the bytes of this operation stand behind what was there, in front of all that follows
      rw [List.filter_cons_of_pos (by rw [h]; rfl), List.flatMap_cons, List.append_assoc]

end Writer

/-! ## Reading back -/

/-- Cutting up a block of numbers gives the numbers. -/
theorem Read.splitScalars_flatMap {kind : Numeric} {xs : List Scalar} (h : ∀ x ∈ xs, x.kind = kind)
    (done : List Scalar) :
    splitScalars kind xs.length (xs.flatMap Scalar.encode) done = done.reverse ++ xs := by
  induction xs generalizing done with
  | nil => rw [List.length_nil, splitScalars, List.append_nil]
  | cons x xs ih =>
    obtain ⟨hx, hxs⟩ := List.forall_mem_cons.mp h
    have hlen : x.encode.length = kind.width := by rw [Scalar.length_encode, hx]
    have hdecode : Scalar.decode kind x.encode = x := by rw [← hx, Scalar.decode_encode]
    rw [List.length_cons, splitScalars, List.flatMap_cons, List.take_left' hlen,
      List.drop_left' hlen, hdecode, ih hxs, List.reverse_cons, List.append_assoc]
    rfl

/-- An array of numbers that fits its prefix is read back as one block. -/
theorem Read.takes_scalars {kind : Numeric} {xs : List Scalar} (h : ∀ x ∈ xs, x.kind = kind)
    (hmax : xs.length ≤ maxLength) :
    Takes (scalars kind) (lengthPrefix xs.length ++ xs.flatMap Scalar.encode) xs := by
  have hlen : (xs.flatMap Scalar.encode).length = xs.length * kind.width := by
    rw [List.length_flatMap, List.map_congr_left fun x hx => by rw [x.length_encode, h x hx],
      List.map_const', List.sum_replicate, smul_eq_mul]
  have hblock := takes_map (fun block => splitScalars kind xs.length block [])
    (takes_bytes (xs.flatMap Scalar.encode))
  rw [splitScalars_flatMap h, List.reverse_nil, List.nil_append, hlen] at hblock
  exact takes_bind (takes_lengthPrefix hmax) hblock

namespace WriteOp

/-- A length that is announced and not refused fits its prefix. -/
theorem le_maxLength {op : WriteOp} (h : op.refusal? = none) {kind : LengthKind} {n : Nat}
    (hn : op.announced? = some (kind, n)) : n ≤ maxLength := by
  by_contra hlt
  have hrefused := refusal?_eq_some.mpr ⟨kind, n, hn, by omega, rfl⟩
  exact absurd (h.symm.trans hrefused) (by simp)

theorem refusal?_of_mem_carriedOut {ops : List WriteOp} {op : WriteOp} (h : op ∈ carriedOut ops) :
    op.refusal? = none :=
  Option.isNone_iff_eq_none.mp (List.mem_filter.mp h).2

/-- **The counterpart of an operation reads what it wrote**, whatever follows. -/
theorem takes_counterpart {op : WriteOp} (h : op.refusal? = none) :
    Read.Takes op.counterpart.run op.encoding op.datum := by
  cases op with
  | byte value => exact Read.takes_map Datum.byte (Read.takes_byte value)
  | bytes values => exact Read.takes_map Datum.bytes (Read.takes_bytes values)
  | bool value => exact Read.takes_map Datum.flag (Read.takes_flag value)
  | presence value => exact Read.takes_map Datum.flag (Read.takes_flag value)
  | scalar value => exact Read.takes_map Datum.scalar (Read.takes_encode value)
  | string text => exact Read.takes_map Datum.text (Read.takes_text (le_maxLength h rfl))
  | length kind n => exact Read.takes_map Datum.length (Read.takes_lengthPrefix (le_maxLength h rfl))
  | scalars kind values =>
    exact Read.takes_map Datum.scalars (Read.takes_scalars values.2 (le_maxLength h rfl))

/-- **Counterparts in a row read what the operations wrote.** -/
theorem takes_counterparts {ops : List WriteOp} (h : ∀ op ∈ ops, op.refusal? = none) :
    Read.Takes ((ops.map counterpart).mapM ReadOp.run) (ops.flatMap encoding) (ops.map datum) := by
  induction ops with
  | nil => exact Read.takes_pure []
  | cons op rest ih =>
    obtain ⟨hop, hrest⟩ := List.forall_mem_cons.mp h
    rw [List.map_cons, List.mapM_cons, List.flatMap_cons, List.map_cons]
    refine Read.takes_bind (takes_counterpart hop) ?_
    rw [bind_pure_comp]
    exact Read.takes_map (op.datum :: ·) (ih hrest)

end WriteOp

end WireSchema.Wire
