import WireSchema.Layout.Rounds
import WireSchema.Schema.Basic

/-!
# Structs of fixed size

A struct has a fixed size when each of its fields has: a required primitive with a width, or a
required struct of fixed size. That is the least set of structs closed under this rule, and it is
found in rounds, starting from none; a struct that contains itself never gets in.
-/

namespace WireSchema

/-- Whether a type has a fixed size, given which structs do. -/
def Ty.isFixed (known : Nat → Bool) : Ty → Bool
  | .primitive p o => !o && p.width?.isSome
  | .struct id o => !o && known id
  | .array _ _ => false

namespace Schema

/-- The structs of fixed size that are found one round after those in `known`. -/
def fixedStep (s : Schema) (known : Array Bool) : Array Bool :=
  (s.structs.map fun d => d.fields.all fun f => f.ty.isFixed fun id => known.getD id false).toArray

/-- Which structs have a fixed size. Every round but a last idle one finds a struct, so as many
rounds as there are structs find them all. -/
def fixedStructs (s : Schema) : Array Bool :=
  settle s.fixedStep s.structs.length (s.structs.map fun _ => false).toArray

/-- Whether a struct has a fixed size. -/
def isFixedStruct (s : Schema) (id : Nat) : Bool :=
  s.fixedStructs.getD id false

end Schema

end WireSchema
