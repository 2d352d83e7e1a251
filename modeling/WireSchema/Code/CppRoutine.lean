import WireSchema.Code.Fresh
import WireSchema.Code.Selection
import WireSchema.Naming.Identifier

/-!
# C++ routines

What the functions in a generated C++ header do, as trees: statements that encode a value, statements
that decode into a variable, and expressions for sizes. How they are spelled is left to `CppText`.
-/

namespace WireSchema.CppCode

open WireSchema.Naming (cppField)

/-- An expression that stands for a value in memory. -/
inductive Place where
  | named (name : String)
  | member (base field : String)
  /-- The value inside an optional. -/
  | deref (p : Place)
  /-- The last item of a vector. -/
  | back (p : Place)
  deriving DecidableEq, Repr

/-! ## Encoding -/

/-- A statement that writes one value. -/
inductive Encode where
  | bool (p : Place)
  | string (p : Place)
  | scalar (kind : Numeric) (p : Place)
  /-- The routine of a struct. -/
  | struct (id : Nat) (p : Place)
  /-- A length and a block of scalars. -/
  | bulk (kind : Numeric) (p : Place)
  /-- A flag and, if the value is there, what is done with it. -/
  | optional (p : Place) (body : Encode)
  /-- A length and what is done with each item. -/
  | each (p : Place) (item : String) (body : Encode)
  deriving DecidableEq, Repr

/-- Writes a value that may be absent. -/
def encodeOptional (optional : Bool) (p : Place) (body : Place → Fresh Encode) : Fresh Encode :=
  if optional then return .optional p (← body (.deref p)) else body p

/-- Writes a primitive. -/
def encodePrimitive : Primitive → Place → Encode
  | .bool, p => .bool p
  | .string, p => .string p
  | .number kind, p => .scalar kind p

/-- The statement that writes a value of a type. -/
def encode (bulkArrays : Bool) : Ty → Place → Fresh Encode
  | .primitive prim o, p => encodeOptional o p fun p => return encodePrimitive prim p
  | .struct id o, p => encodeOptional o p fun p => return .struct id p
  | .array e o, p => encodeOptional o p fun p =>
    match arrayStrategy bulkArrays e with
    | .bulk kind => return .bulk kind p
    | .elementWise => do
      let item ← fresh "item"
      return .each p item (← encode bulkArrays e (.named item))

/-! ## Decoding -/

/-- A statement that reads one value into a place. -/
inductive Decode where
  | bool (target : Place)
  | string (target : Place)
  | scalar (kind : Numeric) (target : Place)
  /-- The routine of a struct. -/
  | struct (id : Nat) (target : Place)
  /-- A length and a block of scalars. -/
  | bulk (kind : Numeric) (target : Place)
  /-- A flag and, if it is set, what is done to the value. -/
  | optional (target : Place) (body : Decode)
  /-- A length and what is done to as many items. -/
  | each (target : Place) (len index : String) (body : Decode)
  deriving DecidableEq, Repr

/-- Reads a value that may be absent. -/
def decodeOptional (optional : Bool) (p : Place) (body : Place → Fresh Decode) : Fresh Decode :=
  if optional then return .optional p (← body (.deref p)) else body p

/-- Reads a primitive. -/
def decodePrimitive : Primitive → Place → Decode
  | .bool, p => .bool p
  | .string, p => .string p
  | .number kind, p => .scalar kind p

/-- The statement that reads a value of a type. -/
def decode (bulkArrays : Bool) : Ty → Place → Fresh Decode
  | .primitive prim o, p => decodeOptional o p fun p => return decodePrimitive prim p
  | .struct id o, p => decodeOptional o p fun p => return .struct id p
  | .array e o, p => decodeOptional o p fun p =>
    match arrayStrategy bulkArrays e with
    | .bulk kind => return .bulk kind p
    | .elementWise => do
      let len ← fresh "len"
      let index ← fresh "i"
      return .each p len index (← decode bulkArrays e (.back p))

/-! ## Sizes -/

/-- An expression for a number of bytes. -/
inductive SizeExpr where
  | literal (n : Nat)
  | string (p : Place)
  /-- The size routine of a struct. -/
  | struct (id : Nat) (p : Place)
  /-- An array whose items take `n` bytes each. -/
  | fixedItems (p : Place) (n : Nat)
  | optional (p : Place) (inner : SizeExpr)
  /-- An array whose items are summed up in `total`. -/
  | items (p : Place) (item total : String) (body : SizeExpr)
  deriving DecidableEq, Repr

/-- The size of a value that may be absent; `inner` is the layout of one that is there. -/
def sizeOptional (optional : Bool) (inner : Layout) (p : Place)
    (body : Place → Fresh SizeExpr) : Fresh SizeExpr := do
  let required (p : Place) : Fresh SizeExpr :=
    if inner.isFixed then return .literal inner.fixedSize else body p
  if optional then return .optional p (← required (.deref p)) else required p

/-- The size of a value of a type. -/
def size (layoutOf : Ty → Layout) : Ty → Place → Fresh SizeExpr
  | .primitive prim o, p =>
    sizeOptional o (layoutOf (.primitive prim false)) p fun p => return .string p
  | .struct id o, p =>
    sizeOptional o (layoutOf (.struct id false)) p fun p => return .struct id p
  | .array e o, p =>
    sizeOptional o (layoutOf (.array e false)) p fun p =>
      if (layoutOf e).isFixed then return .fixedItems p (layoutOf e).fixedSize
      else do
        let item ← fresh "item"
        let total ← fresh "n"
        return .items p item total (← size layoutOf e (.named item))

/-- The terms of the size of a struct: what its fixed fields take together, unless that is nothing
and there are others, then each of the other fields. -/
def structSize (layoutOf : Ty → Layout) (base : String) (fields : List Field) :
    Fresh (List SizeExpr) := do
  let (fixed, varying) := fields.partition fun f => (layoutOf f.ty).isFixed
  let constant := (fixed.map fun f => (layoutOf f.ty).fixedSize).foldl wordAdd 0
  let terms ← varying.mapM fun f => size layoutOf f.ty (.member base (cppField f.name))
  return if constant > 0 || terms.isEmpty then .literal constant :: terms else terms

/-! ## Routines -/

/-- The routines of a struct. -/
structure StructRoutines where
  id : Nat
  /-- None for a struct of fixed size, which is a constant. -/
  size : Option (List SizeExpr)
  encode : List Encode
  decode : List Decode

/-- The routines of a message. -/
structure MessageRoutines where
  message : Message
  capacity : SizeExpr
  encode : Encode
  decode : Decode

/-- The variable a routine encodes. -/
def inputVariable : String := "value"

/-- The variable the routine of a struct decodes into. -/
def outputVariable : String := "out"

/-- The routines of a struct of the selection. -/
def structRoutines (sel : Selection) (id : Nat) : StructRoutines where
  id := id
  size :=
    if (sel.analysis.structLayout id).isFixed then none
    else some (structSize sel.layoutOf inputVariable (sel.schema.fieldsOf id)).build
  encode := Fresh.build <| (sel.schema.fieldsOf id).mapM fun f =>
    encode sel.options.bulkArrays f.ty (.member inputVariable (cppField f.name))
  decode := Fresh.build <| (sel.schema.fieldsOf id).mapM fun f =>
    decode sel.options.bulkArrays f.ty (.member outputVariable (cppField f.name))

/-- The routines of a message of the selection. -/
def messageRoutines (sel : Selection) (m : Message) : MessageRoutines :=
  let place := Place.named inputVariable
  let (capacity, body) := Fresh.build do
    let capacity ← size sel.layoutOf m.ty place
    let body ← encode sel.options.bulkArrays m.ty place
    return (capacity, body)
  { message := m
    capacity
    encode := body
    decode := (decode sel.options.bulkArrays m.ty place).build }

/-- The routines of a file, in its order. -/
structure Program where
  structs : List StructRoutines
  messages : List MessageRoutines

/-- The routines of a selection. -/
def program (sel : Selection) : Program where
  structs := sel.structs.map (structRoutines sel)
  messages := sel.messages.map (messageRoutines sel)

end WireSchema.CppCode
