import WireSchema.Wire.Error
import WireSchema.Wire.Scalar

/-!
# Writing bytes

Everything that can be put on the wire is an `Item`. An item either has an encoding or is too long
for its length prefix; a writer appends the encoding, and a refused item leaves it as it was.
-/

namespace WireSchema.Wire

/-- The prefix of a string or an array of `n` units. -/
def lengthPrefix (n : Nat) : List UInt8 :=
  littleEndian lengthPrefixWidth n

/-- The UTF-8 bytes of a text. -/
def textBytes (text : String) : List UInt8 :=
  text.toUTF8.data.toList

/-- A flag: one byte, `1` or `0`. -/
def flag (b : Bool) : List UInt8 :=
  [if b then 1 else 0]

/-- The prefix of `n` units, or the refusal of a length that does not fit. -/
def checkedPrefix (kind : LengthKind) (n : Nat) : Except WireError (List UInt8) :=
  if n ≤ maxLength then .ok (lengthPrefix n) else .error (.capacity kind n)

/-- One thing to be written. -/
inductive Item where
  | byte (value : UInt8)
  | bytes (values : List UInt8)
  | bool (value : Bool)
  | scalar (value : Scalar)
  | string (text : String)
  /-- A bare prefix, whose units are written as items of their own. -/
  | length (kind : LengthKind) (n : Nat)
  /-- A prefix and a block of scalars. -/
  | scalars (values : List Scalar)
  deriving DecidableEq

/-- The bytes of an item. -/
def Item.encode : Item → Except WireError (List UInt8)
  | .byte value => .ok [value]
  | .bytes values => .ok values
  | .bool value => .ok (flag value)
  | .scalar value => .ok value.encode
  | .string text => (checkedPrefix .string text.utf8ByteSize).map (· ++ textBytes text)
  | .length kind n => checkedPrefix kind n
  | .scalars values => (checkedPrefix .array values.length).map (· ++ values.flatMap Scalar.encode)

/-- The bytes written so far. -/
structure Writer where
  data : List UInt8 := []
  deriving DecidableEq, Repr

namespace Writer

/-- Number of bytes written so far. -/
def size (w : Writer) : Nat :=
  w.data.length

/-- Appends one item. -/
def write (w : Writer) (item : Item) : Except WireError Writer :=
  item.encode.map fun bytes => ⟨w.data ++ bytes⟩

end Writer

end WireSchema.Wire
