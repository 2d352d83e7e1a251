import WireSchema.Data.Decode
import WireSchema.Layout.Analysis
import WireSchema.Layout.Canonical
import WireSchema.Schema.Check
import WireSchema.Source.Resolve

/-!
# From text to a compiled schema

Schema text is parsed and checked; the schema it declares is then put into canonical order and
analyzed. All else works on the result.
-/

namespace WireSchema

/-- A schema in canonical order that passed all checks, with the layouts of its types. -/
structure Compiled where
  schema : Schema
  analysis : Analysis

/-- Brings a schema into canonical order and analyzes it. -/
def Schema.compile (s : Schema) : Except Error Compiled := do
  s.check
  let schema := s.canonical
  let analysis ← schema.analyze
  return { schema, analysis }

/-- Compiles schema text. -/
def compile (text : String) : Except Error Compiled := do
  let schema ← Schema.parse text
  schema.compile

namespace Compiled

/-- The names of the messages. -/
def messageNames (c : Compiled) : List String :=
  c.schema.messages.map (·.name)

/-- The message that is meant when none is named: the only one. -/
def soleMessage? (c : Compiled) : Option String :=
  match c.schema.messages with
  | [m] => some m.name
  | _ => none

/-- Checks a document and gives its bytes. -/
def encode (c : Compiled) (message : String) (j : Json) : Except Error (List UInt8) := do
  c.schema.checkData message j
  c.schema.convert message j

end Compiled

end WireSchema
