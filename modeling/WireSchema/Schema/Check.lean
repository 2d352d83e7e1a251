import WireSchema.Layout.Graph
import WireSchema.Error
import WireSchema.Naming.Identifier

/-!
# Well-formed schemas

The checks a schema has to pass before anything is done with it, in the order in which their failures
are reported: there is a package and a message; structs have fields, with names that are not empty and
not used twice; generated code would not use one identifier for two things; and structs nest neither
in a circle nor too deep.
-/

namespace WireSchema

/-- Types that generated code declares or imports beside the schema's own. -/
def reservedTypes : List String :=
  ["ByteBuffer", "ByteBufferMut", "Scalar", "WireError", "Result", "Option", "Vec", "String", "Box",
    "Serialize", "Deserialize", "Encoder", "Decoder", "CapacityError", "TruncatedError"]

/-- Identifiers in use, with the schema names that gave rise to them. -/
abbrev Taken := List (String × String)

/-- Puts an identifier to use for a name, unless another name has it. -/
def Taken.add (taken : Taken) (identifier name : String) : Except Error Taken :=
  match taken.lookup identifier with
  | some first => .error (.schema (.nameCollision first name identifier))
  | none => .ok ((identifier, name) :: taken)

namespace StructDef

/-- Field names are not empty and not in `seen`. -/
def checkFieldNames (struct : String) : (seen : List String) → List Field → Except Error Unit
  | _, [] => .ok ()
  | seen, f :: rest =>
    if f.name = "" then .error (.schema (.emptyFieldName struct))
    else if seen.contains f.name then .error (.schema (.duplicateField struct f.name))
    else checkFieldNames struct (f.name :: seen) rest

/-- A struct has fields, and they can be told apart. -/
def checkFields (d : StructDef) : Except Error Unit :=
  if d.fields.isEmpty then .error (.schema (.emptyStruct d.name))
  else checkFieldNames d.name [] d.fields

/-- Takes the identifiers of a field, in Rust and in C++. -/
def takeField (taken : Taken × Taken) (f : Field) : Except Error (Taken × Taken) := do
  let rust ← taken.1.add (Naming.rustField f.name) f.name
  let cpp ← taken.2.add (Naming.cppField f.name) f.name
  return (rust, cpp)

/-- Fields become different identifiers in either language. -/
def checkIdentifiers (d : StructDef) : Except Error Unit :=
  (d.fields.foldlM takeField ([], [])).map fun _ => ()

end StructDef

namespace Schema

def isMessageName (s : Schema) (name : String) : Bool :=
  s.messages.any (·.name == name)

/-- Takes the type of a declaration, and the functions of one that is a message. -/
def takeDeclaration (s : Schema) (taken : Taken × Taken) (d : Declaration) :
    Except Error (Taken × Taken) := do
  let type := Naming.pascal d.name
  if reservedTypes.contains type then .error (.schema (.reservedName d.name))
  else
    let types ← taken.1.add type d.name
    if s.isMessageName d.name then
      let functions ← taken.2.add (Naming.snake d.name) d.name
      return (types, functions)
    else return (types, taken.2)

/-- Types become different identifiers that generated code does not use, and so do the functions of
messages. -/
def checkDeclarations (s : Schema) : Except Error Unit :=
  (s.declarations.foldlM s.takeDeclaration ([], [])).map fun _ => ()

/-- No struct contains itself. -/
def checkCycles (s : Schema) : Except Error Unit :=
  match s.findCycle with
  | .ok () => .ok ()
  | .error cycle => .error (.circularReference (s.names cycle))

/-- No struct nests too deep; the first that does is named. -/
def checkNesting (s : Schema) : Except Error Unit :=
  let depths := s.depths
  match s.structIds.find? fun id => depths.getD id 0 > maxNesting with
  | some id => .error (.nesting (s.structName id) (depths.getD id 0))
  | none => .ok ()

/-- Checks a schema. -/
def check (s : Schema) : Except Error Unit := do
  if (Text.trim s.package.toList).isEmpty then .error (.schema .emptyPackage)
  else if s.messages.isEmpty then .error .noRootType
  else
    s.structs.forM StructDef.checkFields
    s.checkDeclarations
    s.structs.forM StructDef.checkIdentifiers
    s.checkCycles
    s.checkNesting

end Schema

end WireSchema
