import WireSchema.Schema.Tag
import WireSchema.Schema.Ty

/-!
# Schemas

A schema is a package name, the structs it declares, all its declarations, and the messages among
them. A message is a declaration that gets entry points of its own. Field order in a struct is the
order on the wire.
-/

namespace WireSchema

/-- A place in schema text, counted in characters from line 1, column 1. -/
structure Position where
  line : Nat
  column : Nat
  deriving DecidableEq, Repr

namespace Position

/-- Where a text begins. -/
def start : Position := ⟨1, 1⟩

/-- The place behind a character. -/
def advance (p : Position) (c : Char) : Position :=
  if c = '\n' then ⟨p.line + 1, 1⟩ else ⟨p.line, p.column + 1⟩

/-- How a place is given in messages. -/
def describe (p : Position) : String :=
  s!"at line {p.line}, column {p.column}"

end Position

/-- A field of a struct. -/
structure Field where
  name : String
  pos : Position
  ty : Ty
  tag : Option String
  deriving DecidableEq, Repr

/-- The key of a field in JSON documents: the name its `json` tag entry gives, unless that is empty
or `-`, and the field's own name otherwise. -/
def Field.key (f : Field) : String :=
  match (f.tag.bind (Tag.value? · "json")).map Tag.firstOption with
  | some name => if name = "" ∨ name = "-" then f.name else name
  | none => f.name

/-- A declared struct. -/
structure StructDef where
  name : String
  pos : Position
  fields : List Field
  deriving DecidableEq, Repr

/-- A declared name and the type it stands for. -/
structure Declaration where
  name : String
  pos : Position
  ty : Ty
  deriving DecidableEq, Repr

/-- A declaration with entry points of its own. -/
structure Message where
  name : String
  ty : Ty
  deriving DecidableEq, Repr

/-- Everything a schema text declares. -/
structure Schema where
  package : String
  structs : List StructDef
  declarations : List Declaration
  messages : List Message
  deriving DecidableEq, Repr

namespace Schema

/-- The fields of a struct, none for a position outside the list. -/
def fieldsOf (s : Schema) (id : Nat) : List Field :=
  match s.structs[id]? with
  | some d => d.fields
  | none => []

/-- The name of a struct, empty for a position outside the list. -/
def structName (s : Schema) (id : Nat) : String :=
  match s.structs[id]? with
  | some d => d.name
  | none => ""

/-- The declaration of a name. -/
def declaration? (s : Schema) (name : String) : Option Declaration :=
  s.declarations.find? (·.name == name)

/-- The message of a name. -/
def message? (s : Schema) (name : String) : Option Message :=
  s.messages.find? (·.name == name)

/-- A struct that some message is, optional or not. -/
def isMessageStruct (s : Schema) (id : Nat) : Bool :=
  s.messages.any fun m => m.ty.required == .struct id false

/-- The spelling of a type in schema text, such as `[]*Device`. -/
def typeName (s : Schema) : Ty → String
  | .primitive p o => (if o then "*" else "") ++ p.name
  | .struct id o => (if o then "*" else "") ++ s.structName id
  | .array e o => (if o then "*" else "") ++ "[]" ++ s.typeName e

end Schema

/-- Names that start with an ASCII capital can be seen from outside. -/
def isExported (name : String) : Bool :=
  match name.toList with
  | c :: _ => c.isUpper
  | [] => false

end WireSchema
