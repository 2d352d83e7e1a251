/-!
# Sets of characters

A set of characters is given by its bounds, in order: the first character that belongs, the next one
that does not, the next one that does, and so on.
-/

namespace WireSchema.Text

/-- Whether a character belongs: it has passed an odd number of bounds. -/
def inBounds (bounds : List Nat) (c : Char) : Bool :=
  (bounds.takeWhile (· ≤ c.toNat)).length % 2 == 1

end WireSchema.Text
