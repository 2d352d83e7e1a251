import WireSchema.Wire.Error
import WireSchema.Wire.Scalar

/-!
# Reading bytes

A reader stands at an offset and holds the bytes from there on. Every operation either consumes
what it returns or fails; a failing operation leaves the reader where the part that failed would
have started, so a string whose body is cut off has still consumed its length prefix. Reads are
therefore state transformers that keep their state when they fail.
-/

namespace WireSchema.Wire

/-- A position in a byte string: how many bytes lie before it, and the bytes after it. -/
structure Reader where
  offset : Nat
  rest : List UInt8
  deriving DecidableEq, Repr

namespace Reader

/-- A reader at the start of `bytes`. -/
def ofBytes (bytes : List UInt8) : Reader :=
  ⟨0, bytes⟩

/-- Number of bytes left. -/
def remaining (r : Reader) : Nat :=
  r.rest.length

/-- The reader `n` bytes further on. -/
def advance (r : Reader) (n : Nat) : Reader :=
  ⟨r.offset + n, r.rest.drop n⟩

end Reader

/-- An operation on a reader. -/
abbrev Read := EStateM WireError Reader

namespace Read

/-- The next `n` bytes. -/
def bytes (n : Nat) : Read (List UInt8) := fun r =>
  let taken := r.rest.take n
  if taken.length < n then .error (.truncated r.offset n r.remaining) r
  else .ok taken (r.advance n)

/-- The next byte. -/
def byte : Read UInt8 := fun r =>
  match r.rest with
  | [] => .error (.truncated r.offset 1 0) r
  | b :: rest => .ok b ⟨r.offset + 1, rest⟩

/-- A boolean; every byte but zero is true. -/
def bool : Read Bool := do
  return (← byte) != 0

/-- The flag in front of an optional value. -/
def presence : Read Bool :=
  bool

/-- A scalar of the given kind. -/
def scalar (kind : Numeric) : Read Scalar := do
  return Scalar.decode kind (← bytes kind.width)

/-- The two-byte prefix of a string or an array. -/
def length : Read Nat := do
  return ofLittleEndian (← bytes lengthPrefixWidth)

/-- The text whose UTF-8 form these bytes are. -/
def textOf? (bytes : List UInt8) : Option String :=
  String.fromUTF8? ⟨bytes.toArray⟩

/-- A length-prefixed string. -/
def string : Read String := do
  let n ← length
  let start := (← get).offset
  match textOf? (← bytes n) with
  | some text => return text
  | none => throw (.invalidUtf8 start)

/-- The first `count` scalars of a block, in front of which `done` were read already (latest
first). -/
def splitScalars (kind : Numeric) : (count : Nat) → List UInt8 → (done : List Scalar) → List Scalar
  | 0, _, done => done.reverse
  | count + 1, block, done =>
    splitScalars kind count (block.drop kind.width)
      (Scalar.decode kind (block.take kind.width) :: done)

/-- A length-prefixed array of scalars, taken as one block. -/
def scalars (kind : Numeric) : Read (List Scalar) := do
  let count ← length
  let block ← bytes (count * kind.width)
  return splitScalars kind count block []

/-- `count` values one after the other, behind the ones in `done` (latest first). -/
def replicateOnto {α : Type} (item : Read α) : (count : Nat) → (done : List α) → Read (List α)
  | 0, done => return done.reverse
  | count + 1, done => do
    let a ← item
    replicateOnto item count (a :: done)

/-- `count` values one after the other. -/
def replicate {α : Type} (count : Nat) (item : Read α) : Read (List α) :=
  replicateOnto item count []

end Read

end WireSchema.Wire
