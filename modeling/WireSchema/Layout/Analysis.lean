import WireSchema.Error
import WireSchema.Layout.Graph

/-!
# Sizes

What is known about the encoded form of a type before any value is seen: whether all its values have
one size, the largest size a value can have, and what it is made of. Sizes are 64-bit numbers that
stay at the largest one when they would pass it.
-/

namespace WireSchema

/-- The largest size. -/
def maxSize : Nat := 2 ^ (64 : Nat) - 1

/-- The sum of two sizes. -/
def addSize (a b : Nat) : Nat :=
  min (a + b) maxSize

/-- The product of two sizes. -/
def mulSize (a b : Nat) : Nat :=
  min (a * b) maxSize

/-- Facts about the encoded form of a type. -/
structure Layout where
  isFixed : Bool
  /-- The size of every value if `isFixed`, and zero otherwise. -/
  fixedSize : Nat
  /-- The size no value exceeds. -/
  largest : Nat
  hasStrings : Bool
  hasArrays : Bool
  /-- How many structs lie inside each other below this type's own. -/
  nesting : Nat
  deriving DecidableEq, Repr

namespace Layout

def ofPrimitive (p : Primitive) : Layout :=
  match p.width? with
  | some n => ⟨true, n, n, false, false, 0⟩
  | none => ⟨false, 0, Wire.lengthPrefixWidth + Wire.maxLength, true, false, 0⟩

/-- One more byte tells whether the value is there. -/
def optional (l : Layout) : Layout :=
  { l with isFixed := false, fixedSize := 0, largest := addSize l.largest Wire.presenceWidth }

/-- A prefix and as many elements as it can announce. -/
def array (l : Layout) : Layout :=
  { l with
    isFixed := false
    fixedSize := 0
    largest := addSize (mulSize l.largest Wire.maxLength) Wire.lengthPrefixWidth
    hasArrays := true }

/-- A struct without fields. -/
def empty : Layout :=
  ⟨true, 0, 0, false, false, 0⟩

/-- A struct with one more field. -/
def addField (whole : Layout) (ty : Ty) (field : Layout) : Layout :=
  { whole with
    isFixed := whole.isFixed && field.isFixed
    largest := addSize whole.largest field.largest
    hasStrings := whole.hasStrings || field.hasStrings
    hasArrays := whole.hasArrays || field.hasArrays
    nesting := if ty.innermost?.isSome then max whole.nesting (field.nesting + 1) else whole.nesting }

/-- The size of a struct of fixed size is the sum of its fields. -/
def close (whole : Layout) : Layout :=
  if whole.isFixed then { whole with fixedSize := whole.largest } else whole

end Layout

/-- The layout of a type, given those of structs. -/
def Ty.layout (ofStruct : Nat → Layout) (t : Ty) : Layout :=
  let required :=
    match t with
    | .primitive p _ => Layout.ofPrimitive p
    | .struct id _ => ofStruct id
    | .array e _ => (e.layout ofStruct).array
  if t.optional then required.optional else required

/-- The layout of a struct with the given fields. -/
def Layout.ofFields (ofStruct : Nat → Layout) (fields : List Field) : Layout :=
  (fields.foldl (fun whole f => addField whole f.ty (f.ty.layout ofStruct)) empty).close

/-- Puts an entry into a list ordered by name, in place of one of the same name. -/
def insertByName {α : Type} (name : String) (value : α) : List (String × α) → List (String × α)
  | [] => [(name, value)]
  | (n, v) :: rest =>
    if name = n then (name, value) :: rest
    else if name < n then (name, value) :: (n, v) :: rest
    else (n, v) :: insertByName name value rest

/-- Layouts of everything in a schema. -/
structure Analysis where
  /-- In the order of the schema's structs. -/
  structs : List Layout
  /-- Ordered by name. -/
  declarations : List (String × Layout)
  /-- Ordered by name. -/
  messages : List (String × Layout)
  deriving DecidableEq, Repr

namespace Analysis

/-- The layout of a struct. -/
def structLayout (a : Analysis) (id : Nat) : Layout :=
  (a.structs[id]?).getD .empty

/-- The layout of a type made of the schema's structs. -/
def layoutOf (a : Analysis) (t : Ty) : Layout :=
  t.layout a.structLayout

/-- The layout of a message. -/
def message? (a : Analysis) (name : String) : Option Layout :=
  a.messages.lookup name

end Analysis

namespace Schema

/-- Layouts of structs, latest first. -/
abbrev Layouts := List (Nat × Layout)

def layoutIn (known : Layouts) (id : Nat) : Layout :=
  (known.lookup id).getD .empty

/-- Works out the layout of a struct that was reached by `path`, and of those it leads to. Fails with
the first cycle met. -/
def layoutStruct (s : Schema) (depth : Nat) (path : List Nat) (known : Layouts) (id : Nat) :
    Except (List Nat) Layouts :=
  if (known.lookup id).isSome then .ok known
  else if path.contains id then .error (closeCycle path id)
  else
    match depth with
    | 0 => .error (closeCycle path id)
    | depth + 1 =>
      ((s.targets id).foldlM
          (fun known target => s.layoutStruct depth (path ++ [id]) known target) known).map
        fun known => (id, .ofFields (layoutIn known) (s.fieldsOf id)) :: known

/-- The layouts of all structs, in the order in which they are found, latest first. -/
def layoutStructs (s : Schema) : Except (List Nat) Layouts :=
  s.structIds.foldlM (fun known id => s.layoutStruct s.structs.length [] known id) []

/-- The layouts of everything in a schema. -/
def analyze (s : Schema) : Except Error Analysis :=
  match s.layoutStructs with
  | .error cycle => .error (.circularType (s.names cycle))
  | .ok known =>
    .ok {
      structs := s.structIds.map (layoutIn known)
      declarations := s.declarations.foldl
        (fun found d => insertByName d.name (d.ty.layout (layoutIn known)) found) []
      messages := s.messages.foldl
        (fun found m => insertByName m.name (m.ty.layout (layoutIn known)) found) [] }

end Schema

end WireSchema
