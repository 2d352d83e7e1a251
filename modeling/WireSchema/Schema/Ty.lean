import WireSchema.Primitive

/-!
# Types

A type is a primitive, a struct of the schema, or an array; each carries whether it is optional. An
optional of an optional is not a type of its own, so optionality is a flag and not a constructor.
Structs are referred to by their position in the schema, which lets a schema be any graph: whether it
is acyclic is for the schema check to find out.
-/

namespace WireSchema

/-- A type of the schema language. -/
inductive Ty where
  | primitive (p : Primitive) (optional : Bool)
  /-- The struct at a position of the schema's list of structs. -/
  | struct (id : Nat) (optional : Bool)
  | array (element : Ty) (optional : Bool)
  deriving DecidableEq, Repr

namespace Ty

def optional : Ty → Bool
  | .primitive _ o => o
  | .struct _ o => o
  | .array _ o => o

/-- The same type with the given flag. -/
def withOptional (o : Bool) : Ty → Ty
  | .primitive p _ => .primitive p o
  | .struct id _ => .struct id o
  | .array e _ => .array e o

/-- The type of the values that are present. -/
def required (t : Ty) : Ty :=
  t.withOptional false

/-- The type whose values may be absent. -/
def asOptional (t : Ty) : Ty :=
  t.withOptional true

/-- The struct left when all arrays are stripped, if it is one. -/
def innermost? : Ty → Option Nat
  | .primitive _ _ => none
  | .struct id _ => some id
  | .array e _ => e.innermost?

/-- The primitive left when all arrays are stripped, if it is one. -/
def innermostPrimitive? : Ty → Option Primitive
  | .primitive p _ => some p
  | .struct _ _ => none
  | .array e _ => e.innermostPrimitive?

/-- The width of a required primitive that has one. -/
def fixedWidth? : Ty → Option Nat
  | .primitive p false => p.width?
  | _ => none

@[simp] theorem optional_withOptional (o : Bool) (t : Ty) : (t.withOptional o).optional = o := by
  cases t <;> rfl

@[simp] theorem optional_required (t : Ty) : t.required.optional = false := by
  simp [required]

@[simp] theorem withOptional_optional (t : Ty) : t.withOptional t.optional = t := by
  cases t <;> rfl

end Ty

end WireSchema
