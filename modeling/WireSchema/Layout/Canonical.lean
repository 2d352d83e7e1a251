import WireSchema.Layout.Fixed

/-!
# Canonical field order

On the wire the fields of a struct are grouped by category: fixed-size ones first, the wide before
the narrow, then those of varying size, then the optional ones. Inside a category they are ordered by
name, and fields of one name keep their order. The order thus depends on the set of fields alone and
not on how the schema text lists them.
-/

namespace WireSchema

/-- Where on the wire a field belongs. -/
inductive Category where
  /-- Primitives of eight bytes, and structs of fixed size. -/
  | fixed8
  | fixed4
  | fixed2
  | fixed1
  /-- Required strings, arrays and structs of varying size. -/
  | varying
  | optional
  deriving DecidableEq, Repr

/-- Categories come in this order. -/
def Category.rank : Category → Nat
  | .fixed8 => 0
  | .fixed4 => 1
  | .fixed2 => 2
  | .fixed1 => 3
  | .varying => 4
  | .optional => 5

/-- The category of a required primitive of the given width. -/
def Category.ofWidth : Option Nat → Category
  | some 8 => .fixed8
  | some 4 => .fixed4
  | some 2 => .fixed2
  | some _ => .fixed1
  | none => .varying

/-- The category of a type, given which structs have a fixed size. -/
def Ty.category (known : Nat → Bool) : Ty → Category
  | .primitive p false => .ofWidth p.width?
  | .struct id false => if known id then .fixed8 else .varying
  | .array _ false => .varying
  | _ => .optional

/-- `a` may stand in front of `b`. -/
def Field.precedes (known : Nat → Bool) (a b : Field) : Bool :=
  let ra := (a.ty.category known).rank
  let rb := (b.ty.category known).rank
  ra < rb || (ra == rb && !decide (b.name < a.name))

/-- Every element may stand in front of the next. -/
def isOrdered {α : Type} (precedes : α → α → Bool) : List α → Bool
  | a :: b :: rest => precedes a b && isOrdered precedes (b :: rest)
  | _ => true

namespace Schema

/-- The category of a field of the schema. -/
def categoryOf (s : Schema) (f : Field) : Category :=
  f.ty.category s.isFixedStruct

/-- The schema with the fields of every struct in canonical order. -/
def canonical (s : Schema) : Schema :=
  let fixed := s.fixedStructs
  let precedes := Field.precedes fun id => fixed.getD id false
  { s with structs := s.structs.map fun d => { d with fields := d.fields.mergeSort precedes } }

/-- Whether the fields of every struct are in canonical order. -/
def isCanonical (s : Schema) : Bool :=
  let fixed := s.fixedStructs
  s.structs.all fun d => isOrdered (Field.precedes fun id => fixed.getD id false) d.fields

end Schema

end WireSchema
