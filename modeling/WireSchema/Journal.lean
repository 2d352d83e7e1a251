import WireSchema.Code.Generate

/-!
# What is logged

Records of what was done, for whoever wants to watch. Nothing depends on them: they are computed from
what the steps of the work take and give.
-/

namespace WireSchema

/-- How much a record matters. -/
inductive Level where
  | warn
  | info
  | debug
  | trace
  deriving DecidableEq, Repr

/-- Something worth logging. -/
structure Record where
  level : Level
  text : String
  deriving DecidableEq, Repr

/-- Names in a row. -/
def listed (names : List String) : String :=
  ", ".intercalate names

/-- A layout with its parts named. -/
def Layout.describe (l : Layout) : String :=
  s!"TypeInfo \x7b is_fixed_size: {l.isFixed}, fixed_size: {l.fixedSize}, max_size: {l.largest}, "
    ++ s!"has_strings: {l.hasStrings}, has_arrays: {l.hasArrays}, nest_depth: {l.nesting} \x7d"

namespace Journal

/-- A schema was parsed. -/
def parsed (s : Schema) : Record :=
  ⟨.debug, s!"parsed package {Text.quoteVisible s.package}: {s.declarations.length} declarations, "
    ++ s!"{s.structs.length} structs, messages [{listed (s.messages.map Message.name)}]"⟩

/-- A schema passed all checks. -/
def checked (s : Schema) : Record :=
  ⟨.debug, s!"schema {Text.quoteVisible s.package} passed validation"⟩

/-- A struct was put into canonical order. -/
def ordered (d : StructDef) : Record :=
  ⟨.debug, s!"canonical order for {d.name}: [{listed (d.fields.map Field.name)}]"⟩

/-- The layout of a struct was found. -/
def laidOut (s : Schema) (found : Nat × Layout) : Record :=
  ⟨.trace, s!"{s.structName found.1} -> {found.2.describe}"⟩

/-- A schema in canonical order was analyzed. -/
def analyzed (s : Schema) : List Record :=
  match s.layoutStructs, s.analyze with
  | .ok known, .ok analysis =>
    known.reverse.map (laidOut s) ++
      [⟨.debug, s!"analyzed {analysis.structs.length} structs, {analysis.messages.length} messages"⟩,
        ⟨.info, s!"compiled package {s.package}: {s.structs.length} structs, "
          ++ s!"{s.messages.length} messages"⟩]
  | _, _ => []

/-- A parsed schema was compiled, or would not compile. -/
def compiledSchema (s : Schema) : List Record :=
  parsed s ::
    match s.check with
    | .error _ => []
    | .ok () => checked s :: (s.canonical.structs.map ordered ++ analyzed s.canonical)

/-- Schema text was compiled, or would not compile. -/
def compiled (text : String) : List Record :=
  match Token.scan text with
  | .error _ => []
  | .ok tokens =>
    ⟨.debug, s!"tokenized schema: {tokens.length} tokens"⟩ ::
      match Schema.ofTokens tokens with
      | .error _ => []
      | .ok s => compiledSchema s

/-- A document was encoded. -/
def encoded (message : String) (bytes : List UInt8) : Record :=
  ⟨.debug, s!"encoded {message} fixture: {bytes.length} bytes"⟩

/-- Bytes were decoded. -/
def decoded (d : Decoded) : List Record :=
  d.warnings.map (Record.mk .warn) ++
    [⟨.debug, s!"decoded {d.message} from {d.size + d.trailing} bytes"⟩]

/-- A file was generated. -/
def generated (sel : Selection) (file : GeneratedFile) : Record :=
  ⟨.debug, s!"generated {file.fileName} ({file.source.utf8ByteSize} bytes, "
    ++ s!"{sel.structs.length} structs, {sel.messages.length} messages)"⟩

end Journal

end WireSchema
