/-!
# Failures at the byte level

A reader runs out of input or meets text that is not UTF-8; a writer is handed something longer
than a two-byte length prefix can announce. Nothing else can go wrong between a value and its bytes.
-/

namespace WireSchema.Wire

/-- What a length prefix counts. -/
inductive LengthKind where
  | string
  | array
  deriving DecidableEq, Repr

/-- The name of the counted quantity, as it appears in messages. -/
def LengthKind.describe : LengthKind → String
  | .string => "string byte length"
  | .array => "array element count"

/-- The largest length a prefix can announce. -/
def maxLength : Nat := 65535

/-- Bytes taken by a length prefix. -/
def lengthPrefixWidth : Nat := 2

/-- Bytes taken by the presence flag of an optional value. -/
def presenceWidth : Nat := 1

/-- Why a read or a write failed. -/
inductive WireError where
  /-- Fewer than `needed` bytes were left at `offset`. -/
  | truncated (offset needed remaining : Nat)
  /-- A length above `maxLength`. -/
  | capacity (kind : LengthKind) (length : Nat)
  /-- The string whose first byte is at `offset` is not UTF-8. -/
  | invalidUtf8 (offset : Nat)
  deriving DecidableEq, Repr

/-- The text shown to a user. -/
def WireError.message : WireError → String
  | .truncated offset needed remaining =>
    s!"unexpected end of input at offset {offset}: needed {needed} bytes, {remaining} remaining"
  | .capacity kind length =>
    s!"{kind.describe} {length} exceeds the maximum of {maxLength}"
  | .invalidUtf8 offset => s!"invalid UTF-8 in string at offset {offset}"

end WireSchema.Wire
