import WireSchema.CommandLine.Command
import WireSchema.CommandLine.Location
import WireSchema.Json.Parser
import WireSchema.Json.Printer
import WireSchema.Journal

/-!
# Carrying out commands

What a command does is a program over a few services: files, a place to print lines, a place for log
records. It stops at the first failure; what was printed and written by then stays.
-/

namespace WireSchema

/-- A layout in a report. -/
def Layout.toJson (l : Layout) : Json :=
  .object
    [("is_fixed_size", .bool l.isFixed), ("fixed_size", .number (.int l.fixedSize)),
      ("max_size", .number (.int l.largest)), ("has_strings", .bool l.hasStrings),
      ("has_arrays", .bool l.hasArrays), ("nest_depth", .number (.int l.nesting))]

/-- Named layouts in a report. -/
def layoutsJson (layouts : List (String × Layout)) : Json :=
  .object (layouts.map fun (name, l) => (name, l.toJson))

/-- The layouts of everything in a schema, each group ordered by name. -/
def Compiled.report (c : Compiled) : Json :=
  let structs := (c.schema.structs.zip c.analysis.structs).foldl
    (fun found (d, l) => insertByName d.name l found) []
  .object
    [("package", .string c.schema.package), ("structs", layoutsJson structs),
      ("declarations", layoutsJson c.analysis.declarations),
      ("messages", layoutsJson c.analysis.messages)]

namespace CommandLine

/-- The services a command needs. -/
structure Host (m : Type → Type) where
  /-- The bytes of a file, if it can be read. -/
  read : String → m (Option (List UInt8))
  /-- Writes a file and tells whether that was possible. -/
  write : String → List UInt8 → m Bool
  /-- Makes a folder and those around it, and tells whether that was possible. -/
  makeFolder : String → m Bool
  /-- Prints a line. -/
  print : String → m Unit
  log : Record → m Unit

/-- Why a command stopped. -/
inductive Failure where
  | error (e : Error)
  | usage (problem : Usage)
  deriving DecidableEq, Repr

section

variable {m : Type → Type} [Monad m] (host : Host m)

/-- The outcome of a pure step. -/
def settle {α : Type} : Except Error α → ExceptT Failure m α
  | .ok a => pure a
  | .error e => throw (.error e)

/-- The bytes of a file. -/
def readFile (path : String) : ExceptT Failure m (List UInt8) := do
  match ← host.read path with
  | some bytes => return bytes
  | none => throw (.error .io)

/-- The text of a file. -/
def readText (path : String) : ExceptT Failure m String := do
  match Wire.Read.textOf? (← readFile host path) with
  | some text => return text
  | none => throw (.error .io)

/-- The document in a file. -/
def readJson (path : String) : ExceptT Failure m Json := do
  match Json.parse? (← readText host path) with
  | some j => return j
  | none => throw (.error .json)

/-- Writes a file. -/
def writeFile (path : String) (bytes : List UInt8) : ExceptT Failure m Unit := do
  if ← host.write path bytes then return () else throw (.error .io)

/-- Compiles the schema in a file. -/
def compileFile (path : String) : ExceptT Failure m Compiled := do
  host.log ⟨.debug, s!"reading schema {path}"⟩
  let text ← readText host path
  (Journal.compiled text).forM fun r => host.log r
  settle (compile text)

/-- The message that is meant: the one named, or the only one. -/
def pickMessage (c : Compiled) (message : Option String) : ExceptT Failure m String :=
  match message.or c.soleMessage? with
  | some name => return name
  | none => throw (.usage (.messageNeeded c.messageNames))

/-- Writes a generated file into a folder. -/
def writeGenerated (folder : String) (file : GeneratedFile) : ExceptT Failure m Unit := do
  let path := joinPath folder file.fileName
  writeFile host path (Wire.textBytes file.source)
  host.log ⟨.info, s!"wrote {file.language.name} source ({file.source.utf8ByteSize} bytes)"⟩
  host.print s!"Generated {file.language.name} code written to {path}"

/-- Generates a file for a language. -/
def generateFile (c : Compiled) (message : Option String) (options : Options)
    (language : Language) : ExceptT Failure m GeneratedFile := do
  let messages ← settle <|
    match message with
    | some name => (c.schema.findMessage name).map ([·])
    | none => .ok c.schema.messages
  let sel := c.select messages options
  let file ← settle (sel.generateWith language language.supports)
  host.log (Journal.generated sel file)
  return file

/-- Carries out a command. -/
def Command.run : Command → ExceptT Failure m Unit
  | .validate schema data message => do
    let c ← compileFile host schema
    host.print
      s!"Schema {schema} is valid (package {c.schema.package}, messages: {listed c.messageNames})"
    match data with
    | none => return ()
    | some data =>
      let message ← pickMessage c message
      settle (c.schema.checkData message (← readJson host data))
      host.print s!"{data} is a valid {message}"
  | .fixture schema data message output => do
    let c ← compileFile host schema
    let message ← pickMessage c message
    let bytes ← settle (c.encode message (← readJson host data))
    host.log (Journal.encoded message bytes)
    let target := output.getD (withExtension "bin" data)
    writeFile host target bytes
    host.print s!"Encoded {data} → {target} ({bytes.length} bytes)"
  | .generate schema languages folder message options => do
    let c ← compileFile host schema
    let files ← languages.mapM (generateFile host c message options)
    if ← host.makeFolder folder then files.forM (writeGenerated host folder)
    else throw (.error .io)
  | .decode schema input message => do
    let c ← compileFile host schema
    let message ← pickMessage c message
    let decoded ← settle (c.schema.decode message (← readFile host input))
    (Journal.decoded decoded).forM fun r => host.log r
    host.print decoded.json.pretty
  | .analyze schema => do
    let c ← compileFile host schema
    host.print c.report.pretty

end

end CommandLine

end WireSchema
