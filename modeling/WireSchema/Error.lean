import WireSchema.Code.Language
import WireSchema.Schema.Basic
import WireSchema.Schema.Path
import WireSchema.Number.Decimal
import WireSchema.Text.Quoted
import WireSchema.Wire.Error

/-!
# What can go wrong

Every failure is a cause with the facts that describe it; `Error.message` words it for a user and
`Error.code` gives the code that stays the same when the wording changes. Two causes come from the
outside world and carry no facts: a file that cannot be read or written, and a text that is not JSON.
-/

namespace WireSchema

open Text (quote)

/-- What the grammar asks for at a place. -/
inductive Expected where
  | packageName
  | typeKeyword
  | typeName
  | openBrace
  | fieldName
  | type
  deriving DecidableEq, Repr

def Expected.describe : Expected → String
  | .packageName => "package name"
  | .typeKeyword => "\"type\""
  | .typeName => "type name"
  | .openBrace => "\"\x7b\""
  | .fieldName => "field name"
  | .type => "type"

/-- A text that is not a schema. -/
inductive ParseProblem where
  /-- Characters no token starts with. -/
  | stray (text : String)
  | expected (what : Expected) (found : String)
  | endOfInput
  | unexpected (token : String)
  /-- A declaration takes the name of a primitive. -/
  | reservedName (name : String)
  | declaredTwice (name : String)
  deriving DecidableEq, Repr

def ParseProblem.message : ParseProblem → String
  | .stray text => s!"Syntax error: {quote text}"
  | .expected what found => s!"Expected {what.describe} but found {quote found}"
  | .endOfInput => "Unexpected end of input"
  | .unexpected token => s!"Unexpected token {quote token}"
  | .reservedName name => s!"The type name {quote name} is reserved"
  | .declaredTwice name => s!"The type {quote name} is defined twice"

/-- A construct the language knows but does not support. -/
inductive Construct where
  | embeddedPointer
  | embeddedField (name : String)
  | fixedSizeArray
  | anonymousStruct
  | builtinType (keyword : String)
  | qualifiedName (qualifier : String)
  deriving DecidableEq, Repr

def Construct.message : Construct → String
  | .embeddedPointer => "embedded fields are not supported"
  | .embeddedField name => s!"embedded field {quote name} is not supported, give it a name"
  | .fixedSizeArray => "fixed-size arrays are not supported, use a slice ([]T)"
  | .anonymousStruct => "anonymous struct types are not supported, declare a named type"
  | .builtinType keyword => s!"{keyword} types are not supported"
  | .qualifiedName qualifier => s!"qualified type name {quote qualifier}... is not supported"

/-- A schema whose parts do not fit together. -/
inductive SchemaProblem where
  | emptyPackage
  | emptyStruct (struct : String)
  | emptyFieldName (struct : String)
  | duplicateField (struct field : String)
  /-- The generated code has a type of that name already. -/
  | reservedName (name : String)
  /-- Two names that become one identifier in generated code. -/
  | nameCollision (first second generated : String)
  deriving DecidableEq, Repr

namespace SchemaProblem

def message : SchemaProblem → String
  | .emptyPackage => "package name is required"
  | .emptyStruct struct => s!"struct {struct} has no fields"
  | .emptyFieldName struct => s!"struct {struct} has a field with an empty name"
  | .duplicateField struct field => s!"struct {struct} declares field {field} twice"
  | .reservedName name => s!"type name {name} is reserved by the generated code"
  | .nameCollision first second generated =>
    s!"{first} and {second} both generate the identifier {generated}"

def code : SchemaProblem → String
  | .emptyPackage => "E001"
  | .emptyStruct _ => "E006"
  | .emptyFieldName _ => "E007"
  | .duplicateField _ _ => "E033"
  | .reservedName _ => "E036"
  | .nameCollision _ _ _ => "E033"

end SchemaProblem

/-- The form a value has to have. -/
inductive Form where
  | boolean
  | integer
  | number
  | string
  | object
  | array
  deriving DecidableEq, Repr

namespace Form

def describe : Form → String
  | .boolean => "boolean"
  | .integer => "integer"
  | .number => "number"
  | .string => "string"
  | .object => "object"
  | .array => "array"

def code : Form → String
  | .integer => "E017"
  | .number => "E018"
  | .string => "E019"
  | .object => "E020"
  | .array => "E021"
  | .boolean => "E022"

end Form

/-- Why a value does not conform to its type. -/
inductive DataProblem where
  | missing
  | expected (form : Form)
  | integerRange (value : Int) (type : Numeric)
  /-- A number no single can hold. -/
  | singleRange (value : Double)
  deriving DecidableEq, Repr

namespace DataProblem

/-- Numbers in messages are written out in full, without an exponent. -/
def numberStyle : DecimalStyle where
  isPositional _ := true
  showsFraction := false

def message : DataProblem → String
  | .missing => "required field missing"
  | .expected form => s!"expected {form.describe}"
  | .integerRange value type =>
    s!"value {value} out of range for {(Primitive.number type).name}"
  | .singleRange value => s!"value {value.render numberStyle} out of range for float32"

def code : DataProblem → String
  | .missing => "E015"
  | .expected form => form.code
  | .integerRange _ .int8 => "E023"
  | .integerRange _ .int16 => "E024"
  | .integerRange _ .int32 => "E025"
  | .integerRange _ _ => "E016"
  | .singleRange _ => "E016"

end DataProblem

/-- The deepest a schema may nest structs in structs. -/
def maxNesting : Nat := 32

/-- Everything that can go wrong. -/
inductive Error where
  | io
  | json
  | parse (problem : ParseProblem) (pos : Position)
  | undefinedType (name : String) (pos : Position)
  | unsupported (construct : Construct) (pos : Position)
  | noRootType
  /-- Declarations that stand for each other, from one of them back to it. -/
  | circularType (path : List String)
  /-- Structs that contain each other, from one of them back to it. -/
  | circularReference (path : List String)
  | nesting (struct : String) (depth : Nat)
  | schema (problem : SchemaProblem)
  | data (path : Path) (problem : DataProblem)
  | capacity (path : Path) (kind : Wire.LengthKind) (length : Nat)
  | truncatedInput (offset needed remaining : Nat)
  | malformedInput (offset : Nat)
  | unsupportedType (language : Language) (primitive : Primitive)
  | messageNotFound (name : String)
  deriving DecidableEq, Repr

namespace Error

/-- A failure of the wire buffers, met while working on the value at `path`. -/
def ofWire (path : Path) : Wire.WireError → Error
  | .truncated offset needed remaining => .truncatedInput offset needed remaining
  | .capacity kind length => .capacity path kind length
  | .invalidUtf8 offset => .malformedInput offset

def chain (path : List String) : String :=
  " -> ".intercalate path

/-- The text shown to a user. -/
def message : Error → String
  | .io => "I/O error"
  | .json => "Invalid JSON"
  | .parse problem pos => s!"Parse error {pos.describe}: {problem.message}"
  | .undefinedType name pos => s!"Undefined type \"{name}\" {pos.describe}"
  | .unsupported construct pos => s!"Unsupported construct {pos.describe}: {construct.message}"
  | .noRootType =>
    "No message type found: at least one exported type must not be referenced by any other type"
  | .circularType path => s!"Circular type: {chain path}"
  | .circularReference path => s!"Circular reference detected: {chain path}"
  | .nesting struct depth =>
    s!"Type \"{struct}\" nests {depth} levels deep, exceeding the maximum of {maxNesting}"
  | .schema problem => s!"Invalid schema: {problem.message}"
  | .data path problem => s!"Invalid data at \"{path.render}\": {problem.message}"
  | .capacity path kind length =>
    s!"Wire capacity exceeded at \"{path.render}\": {(Wire.WireError.capacity kind length).message}"
  | .truncatedInput offset needed remaining =>
    s!"Truncated input: {(Wire.WireError.truncated offset needed remaining).message}"
  | .malformedInput offset => s!"Malformed input: {(Wire.WireError.invalidUtf8 offset).message}"
  | .unsupportedType language primitive =>
    s!"The {language.name} backend cannot represent type {primitive.name}"
  | .messageNotFound name => s!"Message \"{name}\" not found in schema"

/-- The code of the cause. -/
def code : Error → String
  | .io => "E029"
  | .json => "E014"
  | .parse _ _ => "E031"
  | .undefinedType _ _ => "E005"
  | .unsupported _ _ => "E012"
  | .noRootType => "E002"
  | .circularType _ => "E010"
  | .circularReference _ => "E010"
  | .nesting _ _ => "E011"
  | .schema problem => problem.code
  | .data _ problem => problem.code
  | .capacity _ .string _ => "E026"
  | .capacity _ .array _ => "E027"
  | .truncatedInput _ _ _ => "E034"
  | .malformedInput _ => "E035"
  | .unsupportedType _ _ => "E028"
  | .messageNotFound _ => "E013"

end Error

end WireSchema
