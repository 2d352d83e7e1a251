import WireSchema.Primitive
import WireSchema.Number.Power

/-!
# Scalars and their little-endian bytes

A scalar is a number of one of the six numeric primitives. Floats are kept as their bit patterns,
so that every NaN survives a trip over the wire unchanged. Both directions go through the pattern
read as a natural number: `littleEndian` writes it lowest byte first and `ofLittleEndian` adds the
bytes up again.
-/

namespace WireSchema.Wire

/-- The lowest `width` bytes of a number, lowest first. -/
def littleEndian : (width : Nat) → Nat → List UInt8
  | 0, _ => []
  | width + 1, n => UInt8.ofNat n :: littleEndian width (n / 256)

/-- The number whose bytes these are, lowest first. -/
def ofLittleEndian : List UInt8 → Nat
  | [] => 0
  | b :: bs => b.toNat + 256 * ofLittleEndian bs

@[simp] theorem length_littleEndian (width n : Nat) : (littleEndian width n).length = width := by
  induction width generalizing n with
  | zero => rfl
  | succ width ih => simp [littleEndian, ih]

theorem ofLittleEndian_littleEndian (width n : Nat) :
    ofLittleEndian (littleEndian width n) = n % 256 ^ width := by
  induction width generalizing n with
  | zero => simp [littleEndian, ofLittleEndian, Nat.mod_one]
  | succ width ih =>
    rw [littleEndian, ofLittleEndian, ih, Nat.pow_succ, Nat.mul_comm (256 ^ width) 256,
      Nat.mod_mul]
    simp

theorem ofLittleEndian_lt (bs : List UInt8) : ofLittleEndian bs < 256 ^ bs.length := by
  induction bs with
  | nil => simp [ofLittleEndian]
  | cons b bs ih =>
    have hb : b.toNat < 256 := b.toNat_lt
    simp only [ofLittleEndian, List.length_cons, Nat.pow_succ]
    omega

theorem littleEndian_ofLittleEndian (bs : List UInt8) :
    littleEndian bs.length (ofLittleEndian bs) = bs := by
  induction bs with
  | nil => rfl
  | cons b bs ih =>
    have hb : b.toNat < 256 := b.toNat_lt
    have hdiv : (b.toNat + 256 * ofLittleEndian bs) / 256 = ofLittleEndian bs := by omega
    have hlow : UInt8.ofNat (b.toNat + 256 * ofLittleEndian bs) = b := by
      apply UInt8.toNat_inj.mp
      simp
    simp only [List.length_cons, littleEndian, ofLittleEndian, hdiv, hlow, ih]

/-- A number of one of the numeric primitives; floats are bit patterns. -/
inductive Scalar where
  | int8 (value : Int8)
  | int16 (value : Int16)
  | int32 (value : Int32)
  | int64 (value : Int64)
  | float32 (bits : UInt32)
  | float64 (bits : UInt64)
  deriving DecidableEq

namespace Scalar

/-- The numeric primitive a scalar belongs to. -/
def kind : Scalar → Numeric
  | .int8 _ => .int8
  | .int16 _ => .int16
  | .int32 _ => .int32
  | .int64 _ => .int64
  | .float32 _ => .float32
  | .float64 _ => .float64

/-- The bit pattern, as a natural number below `256 ^ kind.width`. -/
def pattern : Scalar → Nat
  | .int8 v => v.toUInt8.toNat
  | .int16 v => v.toUInt16.toNat
  | .int32 v => v.toUInt32.toNat
  | .int64 v => v.toUInt64.toNat
  | .float32 b => b.toNat
  | .float64 b => b.toNat

/-- The scalar of a kind with a given bit pattern. -/
def ofPattern (kind : Numeric) (pattern : Nat) : Scalar :=
  match kind with
  | .int8 => .int8 (UInt8.ofNat pattern).toInt8
  | .int16 => .int16 (UInt16.ofNat pattern).toInt16
  | .int32 => .int32 (UInt32.ofNat pattern).toInt32
  | .int64 => .int64 (UInt64.ofNat pattern).toInt64
  | .float32 => .float32 (UInt32.ofNat pattern)
  | .float64 => .float64 (UInt64.ofNat pattern)

/-- The little-endian bytes of a scalar. -/
def encode (s : Scalar) : List UInt8 :=
  littleEndian s.kind.width s.pattern

/-- The scalar of a kind whose little-endian bytes these are. -/
def decode (kind : Numeric) (bytes : List UInt8) : Scalar :=
  ofPattern kind (ofLittleEndian bytes)

@[simp] theorem length_encode (s : Scalar) : s.encode.length = s.kind.width := by
  simp [encode]

end Scalar

end WireSchema.Wire
