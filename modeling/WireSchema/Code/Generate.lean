import WireSchema.Code.CppFile
import WireSchema.Code.RustFile
import WireSchema.Compile

/-!
# Generated files

Code for a selection of messages in one of the target languages, provided that the language can
represent every primitive that occurs.
-/

namespace WireSchema

/-- A file of generated code. -/
structure GeneratedFile where
  language : Language
  fileName : String
  source : String
  deriving DecidableEq, Repr

/-- A way to generate code: its language, the primitives it can represent, the name it gives to the
file of a package, and the text it writes for a selection. -/
structure Backend where
  language : Language
  supports : Primitive → Bool
  fileName : (package : String) → String
  emit : Selection → Except Error String

/-- The file for a selection, written only if all primitives that occur can be represented. -/
def Backend.generate (b : Backend) (sel : Selection) : Except Error GeneratedFile :=
  match sel.primitives.find? (!b.supports ·) with
  | some p => .error (.unsupportedType b.language p)
  | none => do
    let source ← b.emit sel
    return ⟨b.language, b.fileName sel.package, source⟩

/-- The text of the file in a language. -/
def Selection.source (sel : Selection) : Language → String
  | .rust => RustCode.source sel
  | .cpp => CppCode.source sel

namespace Language

/-- The name of the file of a package. -/
def fileName : Language → (package : String) → String
  | .rust => RustCode.fileName
  | .cpp => CppCode.fileName

/-- A language that can represent the primitives in `supports`. -/
def backend (language : Language) (supports : Primitive → Bool) : Backend where
  language
  supports
  fileName := language.fileName
  emit sel := .ok (sel.source language)

end Language

/-- The file in a language that can represent the primitives in `supports`. -/
def Selection.generateWith (sel : Selection) (language : Language) (supports : Primitive → Bool) :
    Except Error GeneratedFile :=
  (language.backend supports).generate sel

/-- The primitives a language can represent: all of them. -/
def Language.supports (_ : Language) (_ : Primitive) : Bool :=
  true

namespace Compiled

/-- Messages of a compiled schema to generate code for. -/
def select (c : Compiled) (messages : List Message) (options : Options) : Selection :=
  { c with options, messages }

/-- The file for all messages of a schema. -/
def generate (c : Compiled) (language : Language) (options : Options) :
    Except Error GeneratedFile :=
  (c.select c.schema.messages options).generateWith language language.supports

/-- The file for one message of a schema. -/
def generateMessage (c : Compiled) (language : Language) (message : String) (options : Options) :
    Except Error GeneratedFile := do
  let m ← c.schema.findMessage message
  (c.select [m] options).generateWith language language.supports

end Compiled

end WireSchema
