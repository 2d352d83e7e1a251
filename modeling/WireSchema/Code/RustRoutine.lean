import WireSchema.Code.Fresh
import WireSchema.Code.Selection
import WireSchema.Layout.Run
import WireSchema.Naming.Identifier

/-!
# Rust routines

What the functions in a generated Rust file do, as trees: one statement per value to be encoded, one
binding per value to be decoded, and expressions for sizes. How they are spelled is left to
`RustText`. Identifiers in the trees are those of the finished text.
-/

namespace WireSchema.RustCode

open WireSchema.Naming (rustField)

/-- Where a routine finds a value. -/
inductive Place where
  /-- A field of the struct at hand. -/
  | field (name : String)
  /-- A variable that holds a reference. -/
  | ref (name : String)
  deriving DecidableEq, Repr

/-! ## Encoding -/

/-- A statement that writes one value. -/
inductive Encode where
  | bool (p : Place)
  | string (p : Place)
  | scalar (kind : Numeric) (p : Place)
  /-- The routine of a struct. -/
  | struct (id : Nat) (p : Place)
  /-- A length and a block of scalars. -/
  | slice (kind : Numeric) (p : Place)
  /-- A flag and, if the value is there, what is done with it under the name `v`. -/
  | optional (p : Place) (v : String) (body : Encode)
  /-- A length and what is done with each item. -/
  | each (p : Place) (item : String) (body : Encode)
  deriving DecidableEq, Repr

/-- Writes a value that may be absent. -/
def encodeOptional (optional : Bool) (p : Place) (body : Place → Fresh Encode) : Fresh Encode :=
  if optional then do
    let v ← fresh "v"
    return .optional p v (← body (.ref v))
  else body p

/-- Writes a primitive. -/
def encodePrimitive : Primitive → Place → Encode
  | .bool, p => .bool p
  | .string, p => .string p
  | .number kind, p => .scalar kind p

/-- The statement that writes a value of a type. -/
def encode (bulkArrays : Bool) : Ty → Place → Fresh Encode
  | .primitive prim o, p => encodeOptional o p fun p => return encodePrimitive prim p
  | .struct id o, p => encodeOptional o p fun p => return .struct id p
  | .array e o, p => encodeOptional o p fun p =>
    match arrayStrategy bulkArrays e with
    | .bulk kind => return .slice kind p
    | .elementWise => do
      let item ← fresh "item"
      return .each p item (← encode bulkArrays e (.ref item))

/-! ## Decoding -/

/-- An expression that reads one value. -/
inductive ReadExpr where
  | bool
  | string
  | scalar (kind : Numeric)
  | struct (id : Nat)
  /-- A length and a block of scalars. -/
  | scalars (kind : Numeric)
  deriving DecidableEq, Repr

/-- How a value is obtained: by an expression, or by statements that bind it to a name. -/
inductive Decode where
  | read (e : ReadExpr)
  /-- A flag and, if it is set, the value. -/
  | optional (name : String) (inner : Decode)
  /-- A length and as many items. -/
  | collect (name len : String) (item : Decode)
  deriving DecidableEq, Repr

/-- The given name, or a temporary. -/
def nameOr (stem : String) : Option String → Fresh String
  | some name => return name
  | none => fresh stem

/-- Reads a value that may be absent. -/
def decodeOptional (optional : Bool) (name : Option String)
    (body : Option String → Fresh Decode) : Fresh Decode :=
  if optional then do
    let v ← nameOr "v" name
    return .optional v (← body none)
  else body name

/-- Reads a primitive. -/
def readPrimitive : Primitive → ReadExpr
  | .bool => .bool
  | .string => .string
  | .number kind => .scalar kind

/-- How a value of a type is obtained; where statements bind it they use the given name, if any. -/
def decode (bulkArrays : Bool) : Ty → Option String → Fresh Decode
  | .primitive prim o, name => decodeOptional o name fun _ => return .read (readPrimitive prim)
  | .struct id o, name => decodeOptional o name fun _ => return .read (.struct id)
  | .array e o, name => decodeOptional o name fun name =>
    match arrayStrategy bulkArrays e with
    | .bulk kind => return .read (.scalars kind)
    | .elementWise => do
      let items ← nameOr "items" name
      let len ← fresh "len"
      return .collect items len (← decode bulkArrays e none)

/-- A field inside a block of bytes; without a kind it is a boolean. -/
structure RunField where
  name : String
  kind : Option Numeric
  offset : Nat
  width : Nat
  deriving DecidableEq, Repr

/-- A step of the routine that decodes a struct. -/
inductive DecodeStep where
  /-- Binds one field. -/
  | value (name : String) (d : Decode)
  /-- Reads a block of bytes and binds the fields in it. -/
  | run (block : String) (size : Nat) (fields : List RunField)
  deriving DecidableEq, Repr

/-- The fields of a run, the first of which starts at `offset`. -/
def runFields (offset : Nat) : List Field → List RunField
  | [] => []
  | f :: rest =>
    match f.ty with
    | .primitive p _ =>
      let width := p.width?.getD 0
      let kind :=
        match p with
        | .number kind => some kind
        | _ => none
      ⟨rustField f.name, kind, offset, width⟩ :: runFields (offset + width) rest
    | _ => runFields offset rest

/-- The step that decodes a segment. -/
def decodeSegment (bulkArrays : Bool) : Segment → Fresh DecodeStep
  | .single f => do
    let name := rustField f.name
    return .value name (← decode bulkArrays f.ty (some name))
  | .run fields => do
    let block ← fresh "run"
    let found := runFields 0 fields
    return .run block (found.foldl (fun size f => size + f.width) 0) found

/-! ## Sizes -/

/-- An expression for a number of bytes. -/
inductive SizeExpr where
  | literal (n : Nat)
  | length (p : Place)
  /-- The size routine of a struct. -/
  | encodedLen (id : Nat) (p : Place)
  | add (a b : SizeExpr)
  | mul (a b : SizeExpr)
  | ifSome (p : Place) (yes no : SizeExpr)
  /-- Zero, or what the value that is there gives under the name `v`. -/
  | mapOr (p : Place) (v : String) (body : SizeExpr)
  /-- The sum over the items. -/
  | sumOver (p : Place) (v : String) (body : SizeExpr)
  | paren (e : SizeExpr)
  deriving DecidableEq, Repr

/-- The size of a value that may be absent; `inner` is the layout of one that is there. -/
def sizeOptional (optional : Bool) (inner : Layout) (p : Place)
    (body : Place → Fresh SizeExpr) : Fresh SizeExpr :=
  match optional, inner.isFixed with
  | false, true => return .literal inner.fixedSize
  | false, false => body p
  | true, true => return .ifSome p (.literal (wordAdd 1 inner.fixedSize)) (.literal 1)
  | true, false => do
    let v ← fresh "v"
    return .add (.literal 1) (.mapOr p v (← body (.ref v)))

/-- The size of a value of a type. -/
def size (layoutOf : Ty → Layout) : Ty → Place → Fresh SizeExpr
  | .primitive prim o, p =>
    sizeOptional o (layoutOf (.primitive prim false)) p fun p =>
      return .add (.literal 2) (.length p)
  | .struct id o, p =>
    sizeOptional o (layoutOf (.struct id false)) p fun p => return .encodedLen id p
  | .array e o, p =>
    sizeOptional o (layoutOf (.array e false)) p fun p =>
      if (layoutOf e).isFixed then
        return .add (.literal 2) (.mul (.length p) (.literal (layoutOf e).fixedSize))
      else do
        let v ← fresh "v"
        return .add (.literal 2) (.sumOver p v (← size layoutOf e (.ref v)))

/-- A conditional is put in brackets where it is a term among others. -/
def SizeExpr.asTerm : SizeExpr → SizeExpr
  | .ifSome p yes no => .paren (.ifSome p yes no)
  | e => e

/-- The terms of the size of a struct: what its fixed fields take together, unless that is nothing
and there are others, then each of the other fields. -/
def structSize (layoutOf : Ty → Layout) (fields : List Field) : Fresh (List SizeExpr) := do
  let (fixed, varying) := fields.partition fun f => (layoutOf f.ty).isFixed
  let constant := (fixed.map fun f => (layoutOf f.ty).fixedSize).foldl wordAdd 0
  let terms ← varying.mapM fun f => size layoutOf f.ty (.field (rustField f.name))
  let terms := if constant > 0 || terms.isEmpty then .literal constant :: terms else terms
  return if terms.length > 1 then terms.map SizeExpr.asTerm else terms

/-! ## Routines -/

/-- The routines of a struct. -/
structure StructRoutines where
  id : Nat
  /-- The names of its fields, in order. -/
  fields : List String
  /-- None for a struct of fixed size, which is a constant. -/
  size : Option (List SizeExpr)
  encode : List Encode
  decode : List DecodeStep

/-- The routines of a message. -/
structure MessageRoutines where
  message : Message
  capacity : SizeExpr
  encode : Encode
  decode : Decode

/-- The routines of a struct of the selection. -/
def structRoutines (sel : Selection) (id : Nat) : StructRoutines where
  id := id
  fields := (sel.schema.fieldsOf id).map fun f => rustField f.name
  size :=
    if (sel.analysis.structLayout id).isFixed then none
    else some (structSize sel.layoutOf (sel.schema.fieldsOf id)).build
  encode := Fresh.build <| (sel.schema.fieldsOf id).mapM fun f =>
    encode sel.options.bulkArrays f.ty (.field (rustField f.name))
  decode := ((sel.schema.segments id).mapM (decodeSegment sel.options.bulkArrays)).build

/-- The name of the variable that holds a message. -/
def messageVariable : String := "value"

/-- The routines of a message of the selection. -/
def messageRoutines (sel : Selection) (m : Message) : MessageRoutines :=
  let (capacity, body) := Fresh.build do
    let capacity ← size sel.layoutOf m.ty (.ref messageVariable)
    let body ← encode sel.options.bulkArrays m.ty (.ref messageVariable)
    return (capacity, body)
  { message := m
    capacity
    encode := body
    decode := (decode sel.options.bulkArrays m.ty (some messageVariable)).build }

/-- The routines of a file, in its order. -/
structure Program where
  structs : List StructRoutines
  messages : List MessageRoutines

/-- The routines of a selection. -/
def program (sel : Selection) : Program where
  structs := sel.structs.map (structRoutines sel)
  messages := sel.messages.map (messageRoutines sel)

/-- Whether a step reads scalars out of a block of bytes. -/
def DecodeStep.usesScalar : DecodeStep → Bool
  | .value _ _ => false
  | .run _ _ fields => fields.any (·.kind.isSome)

end WireSchema.RustCode
