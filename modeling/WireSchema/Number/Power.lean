/-!
# Powers

Sizes and bit patterns are powers with natural exponents. These are the powers of the core library
even where a wider notion of power is in scope, so that arithmetic on them evaluates in the same way
everywhere.
-/

namespace WireSchema

/-- Powers with natural exponents, as the core library has them. -/
instance (priority := 2000) corePow {α : Type} [NatPow α] : Pow α Nat := instPowNat

end WireSchema
