import WireSchema.Code.Language
import WireSchema.Code.Options
import WireSchema.CommandLine.Argument

/-!
# Commands

The five things the program can be asked to do, and how they are asked for. Paths must not be empty;
any other text is a value for an option that takes one.
-/

namespace WireSchema.CommandLine

/-- Something to do. -/
inductive Command where
  /-- Check a schema, and a document against one of its messages. -/
  | validate (schema : String) (data message : Option String)
  /-- Encode a document. -/
  | fixture (schema data : String) (message output : Option String)
  /-- Generate code. -/
  | generate (schema : String) (languages : List Language) (folder : String)
    (message : Option String) (options : Options)
  /-- Decode bytes. -/
  | decode (schema input : String) (message : Option String)
  /-- Show the layouts of everything in a schema. -/
  | analyze (schema : String)
  deriving DecidableEq, Repr

/-- A command and how much is to be logged. -/
structure Invocation where
  verbosity : Nat
  quiet : Bool
  command : Command
  deriving DecidableEq, Repr

/-- Options that every command has, and that may stand in front of it. -/
def globalOptions : List OptionSpec :=
  [{ long := "verbose", short := some 'v', takesValue := false, repeatable := true },
    { long := "quiet", short := some 'q', takesValue := false }]

/-- An option whose value is a path. -/
def pathOption (long : String) (short : Char) (required : Bool) : OptionSpec :=
  { long, short := some short, required, accepts := fun path => !path.isEmpty }

/-- An option whose value is any text. -/
def textOption (long : String) (short : Option Char) : OptionSpec :=
  { long, short }

def schemaOption : OptionSpec :=
  pathOption "schema" 's' true

def messageOption : OptionSpec :=
  textOption "message" (some 'm')

def languageOption : OptionSpec :=
  { long := "lang", short := some 'l', repeatable := true, required := true,
    accepts := fun name => (Language.ofName? name).isSome }

/-- A command's name, its own options, and the command that options give. -/
structure CommandSpec where
  name : String
  options : List OptionSpec
  build : List Occurrence → Command

/-- The text of an option that is known to be given. -/
def given (found : List Occurrence) (option : String) : String :=
  (value? found option).getD ""

/-- The choices about generated code. -/
def generationOptions (found : List Occurrence) : Options where
  package := value? found "package"
  runtimeCrate := (value? found "runtime-crate").getD "ffire"
  bulkArrays := !isGiven found "no-bulk"
  serde := isGiven found "serde"

/-- All commands. -/
def commands : List CommandSpec :=
  [{ name := "validate"
     options := [schemaOption, pathOption "data" 'd' false, messageOption]
     build := fun found =>
      .validate (given found "schema") (value? found "data") (value? found "message") },
    { name := "fixture"
      options := [schemaOption, pathOption "data" 'd' true, messageOption,
        pathOption "output" 'o' false]
      build := fun found =>
        .fixture (given found "schema") (given found "data") (value? found "message")
          (value? found "output") },
    { name := "generate"
      options := [schemaOption, languageOption, pathOption "output-dir" 'o' false,
        textOption "package" (some 'p'), messageOption, textOption "runtime-crate" none,
        { long := "serde", takesValue := false }, { long := "no-bulk", takesValue := false }]
      build := fun found =>
        .generate (given found "schema") ((values found "lang").filterMap Language.ofName?)
          ((value? found "output-dir").getD ".") (value? found "message")
          (generationOptions found) },
    { name := "decode"
      options := [schemaOption, pathOption "input" 'i' true, messageOption]
      build := fun found =>
        .decode (given found "schema") (given found "input") (value? found "message") },
    { name := "analyze"
      options := [schemaOption]
      build := fun found => .analyze (given found "schema") }]

/-- Help about a command is asked for. -/
def helpOn : List String → Refusal
  | [] => .help
  | [name] =>
    if name = "help" || commands.any (·.name == name) then .help
    else .usage (.unknownCommand name)
  | name :: _ => .usage (.unknownCommand name)

/-- The command that the words behind its name give. -/
def CommandSpec.read (spec : CommandSpec) (words : List String) :
    Except Refusal (Command × List Occurrence) := do
  let (found, extra) ← readOptions (spec.options ++ globalOptions) [] words
  match extra with
  | word :: _ => .error (.usage (.unexpected word))
  | [] =>
    match spec.options.find? fun o => o.required && !isGiven found o.long with
    | some o => .error (.usage (.missing o.long))
    | none => .ok (spec.build found, found)

/-- Reads a command line. -/
def Invocation.ofWords (words : List String) : Except Refusal Invocation := do
  let (before, rest) ← readOptions globalOptions [] words
  match rest with
  | [] => .error (.usage .noCommand)
  | "help" :: rest => .error (helpOn rest)
  | name :: rest =>
    match commands.find? (·.name == name) with
    | none => .error (.usage (.unknownCommand name))
    | some spec =>
      let (command, found) ← spec.read rest
      return {
        verbosity := (values (before ++ found) "verbose").length
        quiet := isGiven (before ++ found) "quiet"
        command }

end WireSchema.CommandLine
