import WireSchema.Source.Grammar

/-!
# From declarations to a schema

Names are replaced by what they stand for. Structs become positions in the schema's list of structs,
numbered in the order of their declarations; an alias is replaced by its body, and so on until a
struct or a primitive is reached. What an alias stands for is kept, so that its body is looked at
once. The messages are the exported declarations whose name no body mentions.
-/

namespace WireSchema

/-- Types that names are known to stand for. -/
abbrev Known := List (String × Ty)

/-- Looking up names, which may find out what further ones stand for. -/
abbrev Resolving := StateT Known (Except Error)

/-- The type an expression stands for, given what names stand for. -/
def TypeExpr.resolveWith (onName : String → Position → Resolving Ty) : TypeExpr → Resolving Ty
  | .named name pos => onName name pos
  | .optional e => do return (← e.resolveWith onName).asOptional
  | .array e => do return .array (← e.resolveWith onName) false

namespace Source

/-- The structs among declarations, numbered from `next` on. -/
def structTypes (next : Nat) : List DeclExpr → Known
  | [] => []
  | decl :: rest =>
    if decl.body.isStruct then (decl.name, .struct next false) :: structTypes (next + 1) rest
    else structTypes next rest

variable (s : Source)

/-- The body of the alias of a name. -/
def synonym? (name : String) : Option TypeExpr :=
  s.decls.findSome? fun decl => if decl.name == name then decl.body.synonym? else none

/-- Every name that occurs in the body of a declaration. -/
def mentioned : List String :=
  s.decls.flatMap (·.body.names)

/-- The type a name stands for, met while the aliases of `path` are being replaced. At most `hops`
further aliases are followed; the number of declarations is always enough. -/
def resolveName (hops : Nat) (path : List String) (name : String) (pos : Position) :
    Resolving Ty := do
  match Primitive.ofName? name with
  | some p => return .primitive p false
  | none =>
    match (← get).lookup name with
    | some ty => return ty
    | none =>
      match s.synonym? name with
      | none => throw (.undefinedType name pos)
      | some e =>
        if path.contains name then
          throw (.circularType (path.dropWhile (· != name) ++ [name]))
        else
          match hops with
          | 0 => throw (.circularType (path ++ [name]))
          | hops + 1 =>
            let ty ← e.resolveWith (resolveName hops (path ++ [name]))
            modify ((name, ty) :: ·)
            return ty

/-- The type an expression stands for. -/
def resolveExpr (e : TypeExpr) : Resolving Ty :=
  e.resolveWith (s.resolveName s.decls.length [])

/-- A declared name must be new and must not be a primitive's. -/
def checkNames : (seen : List String) → List DeclExpr → Except Error Unit
  | _, [] => .ok ()
  | seen, decl :: rest =>
    if (Primitive.ofName? decl.name).isSome then
      .error (.parse (.reservedName decl.name) decl.pos)
    else if seen.contains decl.name then
      .error (.parse (.declaredTwice decl.name) decl.pos)
    else checkNames (decl.name :: seen) rest

/-- A field with its type resolved. -/
def resolveField (f : FieldExpr) : Resolving Field := do
  return { name := f.name, pos := f.pos, ty := ← s.resolveExpr f.type, tag := f.tag }

/-- A declaration with its type resolved, and the struct it declares, if it does. -/
def resolveDecl (decl : DeclExpr) : Resolving (Declaration × Option StructDef) := do
  let ty ← s.resolveName s.decls.length [] decl.name decl.pos
  let struct ←
    match decl.body with
    | .struct fields => do
      pure (some { name := decl.name, pos := decl.pos, fields := ← fields.mapM s.resolveField })
    | .alias _ => pure none
  return ({ name := decl.name, pos := decl.pos, ty }, struct)

/-- A declaration that gets entry points of its own, given the names that bodies mention. -/
def isMessage (mentioned : List String) (name : String) : Bool :=
  isExported name && !mentioned.contains name

/-- The schema a source declares. -/
def resolve : Except Error Schema := do
  checkNames [] s.decls
  let resolved ← (s.decls.mapM s.resolveDecl).run' (structTypes 0 s.decls)
  let declarations := resolved.map Prod.fst
  let mentioned := s.mentioned
  let messages :=
    (declarations.filter fun d => isMessage mentioned d.name).map fun d =>
      { name := d.name, ty := d.ty }
  if messages.isEmpty then .error .noRootType
  else
    return { package := s.package, structs := resolved.filterMap Prod.snd, declarations, messages }

end Source

/-- The schema a list of tokens declares. -/
def Schema.ofTokens (tokens : List Token) : Except Error Schema := do
  (← Source.ofTokens tokens).resolve

/-- The schema a text declares. -/
def Schema.parse (text : String) : Except Error Schema := do
  Schema.ofTokens (← Token.scan text)

end WireSchema
