import WireSchema.Proofs.Buffers

/-!
# A reader in any use

A reader is handed bytes from anywhere and may be asked for anything, in any order, and again after it
has failed. Here it is compared with a buffer that holds all its bytes and an index into them, and takes
every difference and every slice by a **checked** operation: one that is out of range has no result.
Along any row of operations both do the same, so every access is within range, the bytes stay as they
are, and the index only moves forward and never past the end.

What is left of a failed operation is said by `FailsAs`: an operation of fixed width has no effect, and
one with a length prefix has read the prefix if the prefix was there.
-/

namespace WireSchema.Wire

/-! ## A buffer with checked accesses -/

/-- Bytes, and how many of them have been read. -/
structure Buffer where
  data : List UInt8
  index : Nat
  deriving DecidableEq, Repr

/-- The difference of two lengths, if it is one. -/
def minus? (m n : Nat) : Option Nat :=
  if n ≤ m then some (m - n) else none

/-- The bytes from `start` up to `stop`, if there are such bytes. -/
def slice? (bytes : List UInt8) (start stop : Nat) : Option (List UInt8) :=
  if start ≤ stop ∧ stop ≤ bytes.length then some ((bytes.take stop).drop start) else none

/-- An operation on a buffer. It has no result at all if it goes out of range. -/
abbrev Checked := ExceptT WireError (StateT Buffer Option)

namespace Checked

variable {α β : Type}

/-- The result of an access. -/
def within (access : Option α) : Checked α :=
  fun b => access.map fun a => (.ok a, b)

def remaining : Checked Nat := do
  let b ← get
  within (minus? b.data.length b.index)

def truncated (needed : Nat) : Checked α := do
  let left ← remaining
  throw (.truncated (← get).index needed left)

def byte : Checked UInt8 := do
  let b ← get
  match b.data[b.index]? with
  | some value => do
    set { b with index := b.index + 1 }
    return value
  | none => truncated 1

def bytes (n : Nat) : Checked (List UInt8) := do
  if n > (← remaining) then truncated n
  else do
    let b ← get
    let value ← within (slice? b.data b.index (b.index + n))
    set { b with index := b.index + n }
    return value

def bool : Checked Bool := do
  return (← byte) != 0

/-- A scalar from the front of bytes. -/
def scalarOf (kind : Numeric) (block : List UInt8) : Checked Scalar := do
  return Scalar.decode kind (← within (slice? block 0 kind.width))

def scalar (kind : Numeric) : Checked Scalar := do
  scalarOf kind (← bytes kind.width)

def length : Checked Nat := do
  let block ← bytes lengthPrefixWidth
  let low ← within block[0]?
  let high ← within block[1]?
  return low.toNat + 256 * high.toNat

def string : Checked String := do
  let n ← length
  let start := (← get).index
  match Read.textOf? (← bytes n) with
  | some text => return text
  | none => throw (.invalidUtf8 start)

/-- A length-prefixed array of scalars; the block is cut into as many whole pieces as it has. -/
def scalars (kind : Numeric) : Checked (List Scalar) := do
  let count ← length
  let block ← bytes (count * kind.width)
  (List.range (block.length / kind.width)).mapM fun i => do
    scalarOf kind (← within (slice? block (i * kind.width) ((i + 1) * kind.width)))

end Checked

/-- Carries out an operation with checked accesses. -/
def ReadOp.checked : ReadOp → Checked Datum
  | .byte => .byte <$> Checked.byte
  | .bytes n => .bytes <$> Checked.bytes n
  | .bool => .flag <$> Checked.bool
  | .presence => .flag <$> Checked.bool
  | .scalar kind => .scalar <$> Checked.scalar kind
  | .string => .text <$> Checked.string
  | .length => .length <$> Checked.length
  | .scalars kind => .scalars <$> Checked.scalars kind

/-- Operations one after the other, each from where the one before it stopped or failed: the outcome of
each, and the buffer behind it. -/
def Buffer.session? (b : Buffer) : List ReadOp → Option (List (Except WireError Datum × Buffer))
  | [] => some []
  | op :: rest => do
    let (outcome, next) ← op.checked b
    let more ← next.session? rest
    return (outcome, next) :: more

/-! ## A reader in use -/

/-- One operation in a row of them. -/
structure ReadStep where
  before : Reader
  op : ReadOp
  outcome : Except WireError Datum
  after : Reader

/-- What an operation gives, and the reader behind it. -/
def Reader.perform (r : Reader) (op : ReadOp) : Except WireError Datum × Reader :=
  match op.run r with
  | .ok a r' => (.ok a, r')
  | .error e r' => (.error e, r')

/-- Operations one after the other, each from where the one before it stopped or failed. -/
def Reader.session (r : Reader) : List ReadOp → List ReadStep
  | [] => []
  | op :: rest =>
    let (outcome, next) := r.perform op
    ⟨r, op, outcome, next⟩ :: next.session rest

/-- `r` stands at its offset in `data`. -/
structure Reader.StandsIn (r : Reader) (data : List UInt8) : Prop where
  le : r.offset ≤ data.length
  rest_eq : r.rest = data.drop r.offset

namespace Reader.StandsIn

variable {r r' : Reader} {data : List UInt8}

theorem ofBytes (data : List UInt8) : (Reader.ofBytes data).StandsIn data :=
  ⟨Nat.zero_le _, rfl⟩

theorem add_remaining (h : r.StandsIn data) : r.offset + r.remaining = data.length := by
  have hle := h.le
  rw [remaining, h.rest_eq, List.length_drop]
  omega

/-- Further on in the input it is still the same input. -/
theorem reaches (h : r.StandsIn data) (hreach : r.Reaches r') : r'.StandsIn data := by
  obtain ⟨passed, hrest, hoffset⟩ := hreach
  have hlen := h.add_remaining
  rw [remaining, hrest, List.length_append] at hlen
  refine ⟨by omega, ?_⟩
  rw [hoffset, ← List.drop_drop, ← h.rest_eq, hrest, List.drop_left]

end Reader.StandsIn

/-! ## Every access is within range -/

namespace Checked

variable {α β : Type}

theorem bind_eq (c : Checked α) (f : α → Checked β) (b : Buffer) :
    (c >>= f) b = match c b with
      | none => none
      | some (.ok a, b') => f a b'
      | some (.error e, b') => some (.error e, b') := by
  change (c b).bind _ = _
  rcases c b with _ | ⟨_ | a, b'⟩ <;> rfl

/-- `c` does on a buffer what `m` does, forward only, and what `m` gives has the property `post`. -/
structure Follows (c : Checked α) (m : Read α) (post : α → Prop) : Prop where
  ok : ∀ {data : List UInt8} {r r' : Reader} {a : α}, r.StandsIn data → m r = .ok a r' →
    c ⟨data, r.offset⟩ = some (.ok a, ⟨data, r'.offset⟩) ∧ r.Reaches r' ∧ post a
  error : ∀ {data : List UInt8} {r r' : Reader} {e : WireError}, r.StandsIn data →
    m r = .error e r' → c ⟨data, r.offset⟩ = some (.error e, ⟨data, r'.offset⟩) ∧ r.Reaches r'

theorem follows_pure {post : α → Prop} {a : α} (h : post a) :
    Follows (pure a) (pure a) post where
  ok _ hm := by
    injection hm with ha hr'
    subst ha; subst hr'
    exact ⟨rfl, .refl _, h⟩
  error _ hm := nomatch hm

theorem follows_throw {post : α → Prop} (e : WireError) :
    Follows (throw e : Checked α) (throw e) post where
  ok _ hm := nomatch hm
  error _ hm := by
    injection hm with he hr'
    subst he; subst hr'
    exact ⟨rfl, .refl _⟩

/-- The place where a buffer stands is the offset of the reader. -/
theorem follows_get : Follows (do return (← get).index) (do return (← get).offset : Read Nat)
    fun _ => True where
  ok _ hm := by
    injection hm with ha hr'
    subst ha; subst hr'
    exact ⟨rfl, .refl _, trivial⟩
  error _ hm := nomatch hm

theorem Follows.bind {c : Checked α} {m : Read α} {f : α → Checked β} {g : α → Read β}
    {post : α → Prop} {post' : β → Prop} (hc : Follows c m post)
    (hf : ∀ a, post a → Follows (f a) (g a) post') : Follows (c >>= f) (m >>= g) post' where
  ok hr hm := by
    rw [Read.bind_eq] at hm
    split at hm
    · rename_i a r₁ h₁
      obtain ⟨hrun, hreach, hpost⟩ := hc.ok hr h₁
      obtain ⟨hrun', hreach', hpost'⟩ := (hf a hpost).ok (hr.reaches hreach) hm
      rw [bind_eq, hrun]
      exact ⟨hrun', hreach.trans hreach', hpost'⟩
    · exact nomatch hm
  error hr hm := by
    rw [Read.bind_eq] at hm
    split at hm
    · rename_i a r₁ h₁
      obtain ⟨hrun, hreach, hpost⟩ := hc.ok hr h₁
      obtain ⟨hrun', hreach'⟩ := (hf a hpost).error (hr.reaches hreach) hm
      rw [bind_eq, hrun]
      exact ⟨hrun', hreach.trans hreach'⟩
    · rename_i e₁ r₁ h₁
      injection hm with he hr'
      subst he; subst hr'
      obtain ⟨hrun, hreach⟩ := hc.error hr h₁
      rw [bind_eq, hrun]
      exact ⟨rfl, hreach⟩

theorem Follows.map {c : Checked α} {m : Read α} {post : α → Prop} (hc : Follows c m post)
    (f : α → β) : Follows (f <$> c) (f <$> m) fun _ => True := by
  rw [map_eq_pure_bind, map_eq_pure_bind]
  exact hc.bind fun a _ => follows_pure trivial

theorem get_eq (b : Buffer) : (get : Checked Buffer) b = some (.ok b, b) :=
  rfl

theorem within_some (a : α) : within (some a) = pure a :=
  rfl

theorem remaining_eq {data : List UInt8} {r : Reader} (h : r.StandsIn data) :
    remaining ⟨data, r.offset⟩ = some (.ok r.remaining, ⟨data, r.offset⟩) := by
  have hlen := h.add_remaining
  have hminus : minus? data.length r.offset = some r.remaining := by
    rw [minus?, if_pos h.le]
    congr 1
    omega
  change within (minus? data.length r.offset) ⟨data, r.offset⟩ = _
  rw [hminus]
  rfl

theorem truncated_eq {data : List UInt8} {r : Reader} (h : r.StandsIn data) (needed : Nat) :
    (truncated needed : Checked α) ⟨data, r.offset⟩
      = some (.error (.truncated r.offset needed r.remaining), ⟨data, r.offset⟩) := by
  unfold truncated
  rw [bind_eq, remaining_eq h]
  rfl

theorem follows_bytes (n : Nat) : Follows (bytes n) (Read.bytes n) fun block => block.length = n where
  ok {data r r' block} hr hm := by
    obtain ⟨taken, hrest, hoffset, _, rfl, hlen⟩ := (Read.safe_bytes n).ok hm
    have hreach : r.Reaches r' := ⟨_, hrest, hoffset⟩
    have hend := (hr.reaches hreach).le
    have hroom : ¬ n > r.remaining := by
      rw [Reader.remaining, hrest, List.length_append]
      omega
    have hslice : slice? data r.offset (r.offset + n) = some taken := by
      rw [slice?, if_pos ⟨by omega, by omega⟩, List.drop_take, ← hr.rest_eq, hrest,
        Nat.add_sub_cancel_left, ← hlen, List.take_left]
    refine ⟨?_, hreach, hlen⟩
    unfold bytes
    rw [bind_eq, remaining_eq hr]
    dsimp only
    rw [if_neg hroom, bind_eq, get_eq]
    dsimp only
    rw [hslice, hoffset, hlen]
    rfl
  error {data r r' e} hr hm := by
    by_cases hle : n ≤ r.rest.length
    · rw [Read.bytes_of_le hle] at hm
      cases hm
    · have hshort : n > r.remaining := Nat.lt_of_not_le hle
      rw [Read.bytes_of_lt hshort] at hm
      injection hm with he hr'
      subst he; subst hr'
      unfold bytes
      rw [bind_eq, remaining_eq hr]
      dsimp only
      rw [if_pos hshort]
      exact ⟨truncated_eq hr n, .refl r⟩

theorem follows_byte : Follows byte Read.byte fun _ => True where
  ok {data r r' value} hr hm := by
    obtain ⟨taken, hrest, hoffset, _, rfl⟩ := Read.safe_byte.ok hm
    have hget : data[r.offset]? = some value := by
      rw [← Nat.add_zero r.offset, ← List.getElem?_drop, ← hr.rest_eq, hrest]
      rfl
    refine ⟨?_, ⟨_, hrest, hoffset⟩, trivial⟩
    unfold byte
    rw [bind_eq, get_eq]
    dsimp only
    rw [hget, hoffset]
    rfl
  error {data r r' e} hr hm := by
    unfold Read.byte at hm
    split at hm
    · rename_i hrest
      injection hm with he hr'
      subst he; subst hr'
      have hget : data[r.offset]? = none := by
        rw [← Nat.add_zero r.offset, ← List.getElem?_drop, ← hr.rest_eq, hrest]
        rfl
      have hnone : r.remaining = 0 := by
        rw [Reader.remaining, hrest]
        rfl
      unfold byte
      rw [bind_eq, get_eq]
      dsimp only
      rw [hget, ← hnone]
      exact ⟨truncated_eq hr 1, .refl r⟩
    · cases hm

theorem follows_bool : Follows bool Read.bool fun _ => True :=
  follows_byte.bind fun _ _ => follows_pure trivial

theorem scalarOf_eq {kind : Numeric} {block : List UInt8} (h : block.length = kind.width) :
    scalarOf kind block = pure (Scalar.decode kind block) := by
  have hslice : slice? block 0 kind.width = some block := by
    rw [slice?, if_pos ⟨Nat.zero_le _, Nat.le_of_eq h.symm⟩, List.drop_zero, ← h, List.take_length]
  rw [scalarOf, hslice, within_some, pure_bind]

theorem follows_scalar (kind : Numeric) : Follows (scalar kind) (Read.scalar kind) fun _ => True := by
  refine (follows_bytes kind.width).bind fun block hblock => ?_
  rw [scalarOf_eq hblock]
  exact follows_pure trivial

theorem follows_length : Follows length Read.length fun _ => True := by
  refine (follows_bytes lengthPrefixWidth).bind fun block hblock => ?_
  obtain ⟨low, high, rfl⟩ := List.length_eq_two.mp hblock
  exact follows_pure trivial

theorem follows_string : Follows string Read.string fun _ => True := by
  refine follows_length.bind fun n _ => ?_
  have hbody : ∀ start, Follows
      (do match Read.textOf? (← bytes n) with
          | some text => return text
          | none => throw (.invalidUtf8 start)) (Read.stringBody start n) fun _ => True := by
    intro start
    refine (follows_bytes n).bind fun block _ => ?_
    cases Read.textOf? block with
    | some text => exact follows_pure trivial
    | none => exact follows_throw _
  exact follows_get.bind fun start _ => hbody start

/-- The pieces of a block of scalars. -/
theorem splitScalars_eq_map (kind : Numeric) (n : Nat) (block : List UInt8) :
    Read.splitScalars kind n block [] = (List.range n).map fun i =>
      Scalar.decode kind ((block.drop (i * kind.width)).take kind.width) := by
  have honto : ∀ (n : Nat) (block : List UInt8) (done : List Scalar),
      Read.splitScalars kind n block done = done.reverse ++ (List.range n).map fun i =>
        Scalar.decode kind ((block.drop (i * kind.width)).take kind.width) := by
    intro n
    induction n with
    | zero =>
      intro block done
      rw [Read.splitScalars, List.range_zero, List.map_nil, List.append_nil]
    | succ n ih =>
      intro block done
      rw [Read.splitScalars, ih, List.range_succ_eq_map, List.map_cons, List.map_map,
        List.reverse_cons, List.append_assoc, Nat.zero_mul, List.drop_zero, List.singleton_append]
      congr 2
      refine List.map_congr_left fun i _ => ?_
      rw [Function.comp_apply, List.drop_drop, Nat.succ_mul, Nat.add_comm]
  exact (honto n block []).trans (List.nil_append _)

theorem mapM_eq_pure {f : α → Checked β} {g : α → β} {xs : List α}
    (h : ∀ x ∈ xs, f x = pure (g x)) : xs.mapM f = pure (xs.map g) := by
  induction xs with
  | nil => rfl
  | cons x xs ih =>
    obtain ⟨hx, hxs⟩ := List.forall_mem_cons.mp h
    rw [List.mapM_cons, hx, ih hxs, pure_bind, pure_bind, List.map_cons]

theorem follows_scalars (kind : Numeric) :
    Follows (scalars kind) (Read.scalars kind) fun _ => True := by
  refine follows_length.bind fun count _ => ?_
  refine (follows_bytes (count * kind.width)).bind fun block hblock => ?_
  have hwidth : 0 < kind.width := by cases kind <;> decide
  have hcount : block.length / kind.width = count := by
    rw [hblock, Nat.mul_div_cancel _ hwidth]
  -- each piece lies in the block and has the width of a scalar
  have hpiece : ∀ i ∈ List.range count,
      (do scalarOf kind (← within (slice? block (i * kind.width) ((i + 1) * kind.width))))
        = (pure (Scalar.decode kind ((block.drop (i * kind.width)).take kind.width)) :
            Checked Scalar) := by
    intro i hi
    have hle : (i + 1) * kind.width ≤ block.length := by
      rw [hblock]
      exact Nat.mul_le_mul_right _ (List.mem_range.mp hi)
    have hsize : (i + 1) * kind.width - i * kind.width = kind.width := by
      rw [Nat.succ_mul, Nat.add_sub_cancel_left]
    have hslice : slice? block (i * kind.width) ((i + 1) * kind.width)
        = some ((block.drop (i * kind.width)).take kind.width) := by
      rw [slice?, if_pos ⟨Nat.mul_le_mul_right _ (Nat.le_succ i), hle⟩, List.drop_take, hsize]
    rw [hslice, within_some, pure_bind]
    refine scalarOf_eq ?_
    rw [List.length_take, List.length_drop]
    omega
  rw [hcount, mapM_eq_pure hpiece, ← splitScalars_eq_map]
  exact follows_pure trivial

end Checked

/-- **Every operation keeps within range**, and does the same with checked accesses. -/
theorem ReadOp.follows (op : ReadOp) : Checked.Follows op.checked op.run fun _ => True := by
  cases op with
  | byte => exact Checked.follows_byte.map _
  | bytes n => exact (Checked.follows_bytes n).map _
  | bool => exact Checked.follows_bool.map _
  | presence => exact Checked.follows_bool.map _
  | scalar kind => exact (Checked.follows_scalar kind).map _
  | string => exact Checked.follows_string.map _
  | length => exact Checked.follows_length.map _
  | scalars kind => exact (Checked.follows_scalars kind).map _

/-! ## How an operation fails -/

/-- The bytes that an operation of fixed width takes. -/
def ReadOp.width? : ReadOp → Option Nat
  | .byte => some 1
  | .bytes n => some n
  | .bool => some 1
  | .presence => some 1
  | .scalar kind => some kind.width
  | .length => some lengthPrefixWidth
  | .string => none
  | .scalars _ => none

/-- The bytes of one item, for an operation that reads a length and so many items. -/
def ReadOp.unit? : ReadOp → Option Nat
  | .string => some 1
  | .scalars kind => some kind.width
  | _ => none

/-- The length that is announced at a place. -/
def announcedAt (data : List UInt8) (start : Nat) : Nat :=
  ofLittleEndian ((data.drop start).take lengthPrefixWidth)

/-- `FailsAs data start op e stop`: there is a reason for an operation at `start` to fail with `e`, and
then it stops at `stop`. -/
inductive FailsAs (data : List UInt8) (start : Nat) : ReadOp → WireError → Nat → Prop where
  | fixedCut {op : ReadOp} {n : Nat} : op.width? = some n → data.length - start < n →
      FailsAs data start op (.truncated start n (data.length - start)) start
  | lengthCut {op : ReadOp} {unit : Nat} : op.unit? = some unit → data.length - start < 2 →
      FailsAs data start op (.truncated start 2 (data.length - start)) start
  | bodyCut {op : ReadOp} {unit : Nat} : op.unit? = some unit → start + 2 ≤ data.length →
      data.length - (start + 2) < announcedAt data start * unit →
      FailsAs data start op (.truncated (start + 2) (announcedAt data start * unit)
        (data.length - (start + 2))) (start + 2)
  | notText : start + 2 + announcedAt data start ≤ data.length →
      Read.textOf? ((data.drop (start + 2)).take (announcedAt data start)) = none →
      FailsAs data start .string (.invalidUtf8 (start + 2)) (start + 2 + announcedAt data start)

namespace Read

variable {α β : Type} {data : List UInt8} {r r' : Reader} {e : WireError}

theorem map_error {f : α → β} {m : Read α} (h : (f <$> m) r = .error e r') :
    m r = .error e r' := by
  rw [map_eq_pure_bind, bind_eq] at h
  split at h
  · exact nomatch h
  · rename_i e₁ r₁ h₁
    injection h with he hr
    rw [← he, ← hr]
    exact h₁

/-- Bytes are missing, and none is taken. -/
theorem bytes_error {n : Nat} (hr : r.StandsIn data) (h : bytes n r = .error e r') :
    e = .truncated r.offset n (data.length - r.offset) ∧ r' = r
      ∧ data.length - r.offset < n := by
  have hlen := hr.add_remaining
  by_cases hle : n ≤ r.rest.length
  · rw [bytes_of_le hle] at h
    exact nomatch h
  · have hshort : r.remaining < n := Nat.lt_of_not_le hle
    have hleft : r.remaining = data.length - r.offset := by omega
    rw [bytes_of_lt hshort] at h
    injection h with he hr'
    exact ⟨by rw [← he, hleft], hr'.symm, by omega⟩

/-- Bytes are there, and the reader is behind them. -/
theorem bytes_ok {n : Nat} {block : List UInt8} (hr : r.StandsIn data)
    (h : bytes n r = .ok block r') : block = (data.drop r.offset).take n
      ∧ r'.StandsIn data ∧ r'.offset = r.offset + n := by
  obtain ⟨taken, hrest, hoffset, _, rfl, hlen⟩ := (safe_bytes n).ok h
  refine ⟨?_, hr.reaches ⟨_, hrest, hoffset⟩, by rw [hoffset, hlen]⟩
  rw [← hr.rest_eq, hrest, ← hlen, List.take_left]

theorem length_error (hr : r.StandsIn data) (h : length r = .error e r') :
    e = .truncated r.offset 2 (data.length - r.offset) ∧ r' = r
      ∧ data.length - r.offset < 2 :=
  bytes_error hr (map_error h)

theorem length_ok {n : Nat} (hr : r.StandsIn data) (h : length r = .ok n r') :
    n = announcedAt data r.offset ∧ r'.StandsIn data ∧ r'.offset = r.offset + 2 := by
  unfold length at h
  rw [bind_eq] at h
  split at h
  · rename_i block r₁ h₁
    obtain ⟨rfl, hr₁, hoffset⟩ := bytes_ok hr h₁
    injection h with hn hr'
    subst hr'
    exact ⟨hn.symm, hr₁, hoffset⟩
  · exact nomatch h

/-- Bytes are missing for something of fixed width. -/
theorem failsAs_bytes {n : Nat} {op : ReadOp} (hr : r.StandsIn data) (hop : op.width? = some n)
    (h : bytes n r = .error e r') : FailsAs data r.offset op e r'.offset := by
  obtain ⟨rfl, rfl, hshort⟩ := bytes_error hr h
  exact .fixedCut hop hshort

theorem failsAs_byte {op : ReadOp} (hr : r.StandsIn data) (hop : op.width? = some 1)
    (h : byte r = .error e r') : FailsAs data r.offset op e r'.offset := by
  rw [byte_eq] at h
  exact failsAs_bytes hr hop (map_error h)

theorem stringBody_of_text {start n : Nat} {block : List UInt8} {text : String}
    (hbody : bytes n r = .ok block r') (htext : textOf? block = some text) :
    stringBody start n r = .ok text r' := by
  unfold stringBody
  rw [bind_eq, hbody]
  dsimp only
  rw [htext]
  rfl

theorem failsAs_string (hr : r.StandsIn data) (h : string r = .error e r') :
    FailsAs data r.offset .string e r'.offset := by
  rw [string_eq, bind_eq] at h
  split at h
  · rename_i n r₁ hlength
    obtain ⟨rfl, hr₁, hoffset⟩ := length_ok hr hlength
    have hle := hr₁.le
    rcases stringBody_error h with hbody | ⟨rfl, block, hbody⟩
    · obtain ⟨rfl, rfl, hshort⟩ := bytes_error hr₁ hbody
      rw [hoffset] at hle hshort ⊢
      rw [← Nat.mul_one (announcedAt data r.offset)] at hshort ⊢
      exact .bodyCut rfl hle hshort
    · -- the whole body was there and is no text, or the read would not have failed
      have hnone : textOf? block = none := by
        cases htext : textOf? block with
        | none => rfl
        | some text => exact nomatch (stringBody_of_text hbody htext).symm.trans h
      obtain ⟨rfl, hr', hoffset'⟩ := bytes_ok hr₁ hbody
      have hle' := hr'.le
      rw [hoffset', hoffset] at hle' ⊢
      rw [hoffset] at hnone
      exact .notText hle' hnone
  · rename_i e₁ r₁ hlength
    injection h with he hr'
    subst he; subst hr'
    obtain ⟨rfl, rfl, hshort⟩ := length_error hr hlength
    exact .lengthCut rfl hshort

theorem failsAs_scalars {kind : Numeric} (hr : r.StandsIn data)
    (h : scalars kind r = .error e r') : FailsAs data r.offset (.scalars kind) e r'.offset := by
  unfold scalars at h
  rw [bind_eq] at h
  split at h
  · rename_i n r₁ hlength
    obtain ⟨rfl, hr₁, hoffset⟩ := length_ok hr hlength
    have hle := hr₁.le
    obtain ⟨rfl, rfl, hshort⟩ := bytes_error hr₁ (map_error h)
    rw [hoffset] at hle hshort ⊢
    exact .bodyCut rfl hle hshort
  · rename_i e₁ r₁ hlength
    injection h with he hr'
    subst he; subst hr'
    obtain ⟨rfl, rfl, hshort⟩ := length_error hr hlength
    exact .lengthCut rfl hshort

end Read

/-- **An operation fails for a reason, and where it says.** -/
theorem ReadOp.failsAs {op : ReadOp} {data : List UInt8} {r r' : Reader} {e : WireError}
    (hr : r.StandsIn data) (h : op.run r = .error e r') : FailsAs data r.offset op e r'.offset := by
  cases op with
  | byte => exact Read.failsAs_byte hr rfl (Read.map_error h)
  | bytes n => exact Read.failsAs_bytes hr rfl (Read.map_error h)
  | bool => exact Read.failsAs_byte hr rfl (Read.map_error (Read.map_error h))
  | presence => exact Read.failsAs_byte hr rfl (Read.map_error (Read.map_error h))
  | scalar kind => exact Read.failsAs_bytes hr rfl (Read.map_error (Read.map_error h))
  | string => exact Read.failsAs_string hr (Read.map_error h)
  | length => exact Read.failsAs_bytes hr rfl (Read.map_error (Read.map_error h))
  | scalars kind => exact Read.failsAs_scalars hr (Read.map_error h)

/-- A truncation is told as it is: where, what was needed, and that less was left. -/
theorem FailsAs.truncated {data : List UInt8} {start stop : Nat} {op : ReadOp}
    {offset needed left : Nat} (hstart : start ≤ data.length)
    (h : FailsAs data start op (.truncated offset needed left) stop) :
    offset = stop ∧ offset + left = data.length ∧ left < needed := by
  cases h with
  | fixedCut hop hshort => exact ⟨rfl, by omega, hshort⟩
  | lengthCut hop hshort => exact ⟨rfl, by omega, hshort⟩
  | bodyCut hop hle hshort => exact ⟨rfl, by omega, hshort⟩

/-! ## Any row of operations -/

/-- **One operation**: it does what it does with checked accesses, and moves forward in the same
bytes; if it fails, it fails for a reason. -/
theorem Reader.perform_spec {r : Reader} {data : List UInt8} (hr : r.StandsIn data) (op : ReadOp) :
    op.checked ⟨data, r.offset⟩ = some ((r.perform op).1, ⟨data, (r.perform op).2.offset⟩)
      ∧ r.Reaches (r.perform op).2
      ∧ ∀ e, (r.perform op).1 = .error e → FailsAs data r.offset op e (r.perform op).2.offset := by
  unfold perform
  cases hrun : op.run r with
  | ok a r' =>
    obtain ⟨hchecked, hreach, _⟩ := op.follows.ok hr hrun
    exact ⟨hchecked, hreach, fun e he => nomatch he⟩
  | error e r' =>
    obtain ⟨hchecked, hreach⟩ := op.follows.error hr hrun
    refine ⟨hchecked, hreach, fun e' he => ?_⟩
    obtain rfl := Except.error.inj he
    exact ReadOp.failsAs hr hrun

/-- What holds of every operation in a row. -/
structure ReadStep.Sound (data : List UInt8) (s : ReadStep) : Prop where
  /-- The reader stands in the same bytes before and after. -/
  before : s.before.StandsIn data
  after : s.after.StandsIn data
  forward : s.before.offset ≤ s.after.offset
  fails : ∀ e, s.outcome = .error e → FailsAs data s.before.offset s.op e s.after.offset

/-- **A row of operations**, by one operation after the other. -/
theorem Reader.session_spec {data : List UInt8} (ops : List ReadOp) {r : Reader}
    (hr : r.StandsIn data) :
    Buffer.session? ⟨data, r.offset⟩ ops
        = some ((r.session ops).map fun s => (s.outcome, ⟨data, s.after.offset⟩))
      ∧ ∀ s ∈ r.session ops, s.Sound data := by
  induction ops generalizing r with
  | nil => exact ⟨rfl, List.forall_mem_nil _⟩
  | cons op ops ih =>
    obtain ⟨hchecked, hreach, hfails⟩ := Reader.perform_spec hr op
    have hnext := hr.reaches hreach
    obtain ⟨hrest, hsound⟩ := ih hnext
    have hforward : r.offset ≤ (r.perform op).2.offset := by
      obtain ⟨passed, _, hoffset⟩ := hreach
      omega
    constructor
    · rw [Buffer.session?, hchecked, Option.bind_eq_bind, Option.bind_some]
      dsimp only
      rw [hrest]
      rfl
    · exact List.forall_mem_cons.mpr ⟨⟨hr, hnext, hforward, hfails⟩, hsound⟩

/--
**A reader keeps within its bytes, whatever it is used for.** For all bytes and every row of
operations, also after failures: no difference and no slice goes out of range, and the index and the
outcomes are those of a reader that holds what is left. Behind each operation the index is at most the
number of bytes and not less than before, and the bytes are the same. A truncation names the index
where the part that failed starts, what is left from there, and that more was needed. An operation of
fixed width that fails leaves the index as it was. One with a length in front leaves it as it was if the
length is cut off, behind the length if the body is cut off, and behind the body if that is no text;
then it names the first byte of the body.
-/
theorem reader_keeps_in_range (data : List UInt8) (ops : List ReadOp) :
    Buffer.session? ⟨data, 0⟩ ops = some (((Reader.ofBytes data).session ops).map fun s =>
        (s.outcome, ⟨data, s.after.offset⟩))
      ∧ ∀ s ∈ (Reader.ofBytes data).session ops,
        s.before.offset ≤ s.after.offset ∧ s.after.offset ≤ data.length
          ∧ s.after.rest = data.drop s.after.offset
          ∧ (∀ offset needed left, s.outcome = .error (.truncated offset needed left) →
              offset = s.after.offset ∧ offset + left = data.length ∧ left < needed)
          ∧ ∀ e, s.outcome = .error e → FailsAs data s.before.offset s.op e s.after.offset := by
  obtain ⟨hsession, hsound⟩ := Reader.session_spec ops (.ofBytes data)
  refine ⟨hsession, fun s hs => ?_⟩
  have h := hsound s hs
  refine ⟨h.forward, h.after.le, h.after.rest_eq, ?_, h.fails⟩
  intro offset needed left hcut
  exact (h.fails _ hcut).truncated h.before.le

/-- A string that is no text, an array that is cut off, and reads behind these failures. -/
def cutBytes : List UInt8 :=
  [1, 0, 255, 4, 0, 7]

def cutReads : List ReadOp :=
  [.string, .scalars .int32, .scalar .int64, .bytes 1, .length]

theorem session_cutBytes : ((Reader.ofBytes cutBytes).session cutReads).map
      (fun s => (s.before.offset, s.op, s.outcome, s.after.offset))
    = [(0, .string, .error (.invalidUtf8 2), 3),
        (3, .scalars .int32, .error (.truncated 5 16 1), 5),
        (5, .scalar .int64, .error (.truncated 5 8 1), 5), (5, .bytes 1, .ok (.bytes [7]), 6),
        (6, .length, .error (.truncated 6 2 0), 6)] := by
  decide

theorem reader_keeps_in_range_cut :
    Buffer.session? ⟨cutBytes, 0⟩ cutReads = some
        [(.error (.invalidUtf8 2), ⟨cutBytes, 3⟩), (.error (.truncated 5 16 1), ⟨cutBytes, 5⟩),
          (.error (.truncated 5 8 1), ⟨cutBytes, 5⟩), (.ok (.bytes [7]), ⟨cutBytes, 6⟩),
          (.error (.truncated 6 2 0), ⟨cutBytes, 6⟩)]
      ∧ FailsAs cutBytes 0 .string (.invalidUtf8 2) 3
      ∧ FailsAs cutBytes 3 (.scalars .int32) (.truncated 5 16 1) 5
      ∧ 5 + 1 = cutBytes.length ∧ 1 < 16 := by
  obtain ⟨hsession, hsteps⟩ := reader_keeps_in_range cutBytes cutReads
  have hfails : ∀ t ∈ ((Reader.ofBytes cutBytes).session cutReads).map
      (fun s => (s.before.offset, s.op, s.outcome, s.after.offset)), ∀ e, t.2.2.1 = .error e →
        FailsAs cutBytes t.1 t.2.1 e t.2.2.2 := by
    intro t ht e he
    obtain ⟨s, hs, rfl⟩ := List.mem_map.mp ht
    exact (hsteps s hs).2.2.2.2 e he
  rw [session_cutBytes] at hfails
  have hscalars := hfails (3, .scalars .int32, .error (.truncated 5 16 1), 5) (by simp) _ rfl
  exact ⟨hsession.trans (by decide), hfails (0, .string, .error (.invalidUtf8 2), 3) (by simp) _ rfl,
    hscalars, (hscalars.truncated (by decide)).2⟩

end WireSchema.Wire
