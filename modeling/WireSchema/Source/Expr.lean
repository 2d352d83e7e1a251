import WireSchema.Schema.Basic

/-!
# Declarations as written

What the parser finds, before any name is looked up: a type expression is a name behind stars and
brackets, and a declaration is a name with a struct body or another type expression.
-/

namespace WireSchema

/-- A type as written. -/
inductive TypeExpr where
  | named (name : String) (pos : Position)
  | optional (e : TypeExpr)
  | array (element : TypeExpr)
  deriving DecidableEq, Repr

/-- The one name in a type expression. -/
def TypeExpr.name : TypeExpr → String
  | .named name _ => name
  | .optional e => e.name
  | .array e => e.name

/-- A field as written. -/
structure FieldExpr where
  name : String
  pos : Position
  type : TypeExpr
  tag : Option String
  deriving DecidableEq, Repr

/-- What a declared name stands for. -/
inductive DeclBody where
  | struct (fields : List FieldExpr)
  | alias (e : TypeExpr)
  deriving DecidableEq, Repr

/-- The names a body refers to. -/
def DeclBody.names : DeclBody → List String
  | .struct fields => fields.map (·.type.name)
  | .alias e => [e.name]

def DeclBody.isStruct : DeclBody → Bool
  | .struct _ => true
  | .alias _ => false

/-- The type expression that an alias stands for. -/
def DeclBody.synonym? : DeclBody → Option TypeExpr
  | .struct _ => none
  | .alias e => some e

/-- A declaration as written. -/
structure DeclExpr where
  name : String
  pos : Position
  body : DeclBody
  deriving DecidableEq, Repr

/-- A whole schema text as written; the package is empty if none is named. -/
structure Source where
  package : String
  decls : List DeclExpr
  deriving DecidableEq, Repr

end WireSchema
