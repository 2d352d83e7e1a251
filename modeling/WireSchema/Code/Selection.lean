import WireSchema.Code.Options
import WireSchema.Layout.Analysis

/-!
# What code is generated for

Code is generated for some messages of a schema and for the structs they are made of, each behind
the structs inside it.
-/

namespace WireSchema

/-- Messages of a schema, and the choices about their code. -/
structure Selection where
  schema : Schema
  analysis : Analysis
  options : Options
  messages : List Message

namespace Selection

/-- The package name in generated code. -/
def package (sel : Selection) : String :=
  sel.options.package.getD sel.schema.package

/-- The structs the messages are made of, each behind the structs inside it. -/
def structs (sel : Selection) : List Nat :=
  sel.schema.reachable (sel.messages.map (·.ty))

/-- The types code is generated for: those of the messages and of all fields. -/
def types (sel : Selection) : List Ty :=
  sel.messages.map (·.ty) ++ sel.structs.flatMap fun id => (sel.schema.fieldsOf id).map (·.ty)

/-- The primitives that occur, in the order of `Primitive.all`. -/
def primitives (sel : Selection) : List Primitive :=
  let found := sel.types.filterMap Ty.innermostPrimitive?
  Primitive.all.filter found.contains

/-- The layout of a type. -/
def layoutOf (sel : Selection) (t : Ty) : Layout :=
  sel.analysis.layoutOf t

/-- A message that is a struct of its own name. -/
def isNamedStruct (sel : Selection) (m : Message) : Bool :=
  match m.ty with
  | .struct id false => sel.schema.structName id == m.name
  | _ => false

/-- The message that is a given struct under the struct's own name. -/
def ownMessage? (sel : Selection) (id : Nat) : Option Message :=
  let name := sel.schema.structName id
  sel.messages.find? fun m => m.name == name && m.ty == .struct id false

end Selection

end WireSchema
