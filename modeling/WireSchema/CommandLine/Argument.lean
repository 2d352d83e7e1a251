/-!
# Arguments

A command line is a list of words. A word that starts with `--` names an option, with its value behind
a `=` or in the next word; one that starts with `-` is a row of one-letter options, the last of which
may have its value behind it, with or without a `=`, or in the next word. A word that looks like an
option is never taken for a value. Nothing may follow a bare `--`.
-/

namespace WireSchema.CommandLine

/-- Why a command line is refused. -/
inductive Usage where
  | noCommand
  | unknownCommand (name : String)
  | unexpected (word : String)
  | missingValue (option : String)
  | unwantedValue (option : String)
  | invalidValue (option value : String)
  /-- An option that may be given once is given again. -/
  | again (option : String)
  | missing (option : String)
  /-- There are several messages to choose from. -/
  | messageNeeded (messages : List String)
  deriving DecidableEq, Repr

def Usage.message : Usage → String
  | .noCommand => "a command is required"
  | .unknownCommand name => s!"unknown command {name}"
  | .unexpected word => s!"unexpected argument {word}"
  | .missingValue option => s!"--{option} needs a value"
  | .unwantedValue option => s!"--{option} takes no value"
  | .invalidValue option value => s!"--{option} cannot be {value}"
  | .again option => s!"--{option} may be given once"
  | .missing option => s!"--{option} is required"
  | .messageNeeded messages =>
    "--message is required, the schema has several messages: " ++ ", ".intercalate messages

/-- What keeps a command line from being carried out. -/
inductive Refusal where
  /-- Help was asked for. -/
  | help
  | usage (problem : Usage)
  deriving DecidableEq, Repr

/-- An option of a command. -/
structure OptionSpec where
  long : String
  short : Option Char := none
  takesValue : Bool := true
  /-- May be given any number of times. -/
  repeatable : Bool := false
  required : Bool := false
  /-- Which values it takes. -/
  accepts : String → Bool := fun _ => true

/-- An option as given, with its value. -/
structure Occurrence where
  option : String
  value : String
  deriving DecidableEq, Repr

/-- Adds an option to those found. -/
def OptionSpec.add (spec : OptionSpec) (value : String) (found : List Occurrence) :
    Except Refusal (List Occurrence) :=
  if !spec.repeatable && found.any (·.option == spec.long) then .error (.usage (.again spec.long))
  else if !spec.accepts value then .error (.usage (.invalidValue spec.long value))
  else .ok (found ++ [⟨spec.long, value⟩])

/-- Reads a row of one-letter options; the last may still need a value. -/
def readRow (specs : List OptionSpec) (found : List Occurrence) :
    List Char → Except Refusal (List Occurrence × Option OptionSpec)
  | [] => .ok (found, none)
  | c :: rest =>
    if c = 'h' then .error .help
    else
      match specs.find? (·.short == some c) with
      | none => .error (.usage (.unexpected s!"-{c}"))
      | some spec =>
        if spec.takesValue then
          match rest with
          | [] => .ok (found, some spec)
          | '=' :: value => (spec.add (String.ofList value) found).map (·, none)
          | value => (spec.add (String.ofList value) found).map (·, none)
        else do
          let found ← spec.add "" found
          readRow specs found rest

/-- A word that cannot be a value. -/
def looksLikeOption (word : String) : Bool :=
  match word.toList with
  | '-' :: _ :: _ => true
  | _ => false

/-- A name and what follows the first `=` in a word. -/
def splitValue (word : List Char) : String × Option String :=
  match word.dropWhile (· != '=') with
  | _ :: value => (String.ofList (word.takeWhile (· != '=')), some (String.ofList value))
  | [] => (String.ofList word, none)

/-- Reads options up to the first word that is none, and gives that word and those behind it. -/
def readOptions (specs : List OptionSpec) (found : List Occurrence) :
    List String → Except Refusal (List Occurrence × List String)
  | [] => .ok (found, [])
  | word :: rest =>
    match word.toList with
    | ['-', '-'] =>
      match rest with
      | [] => .ok (found, [])
      | extra :: _ => .error (.usage (.unexpected extra))
    | '-' :: '-' :: name => do
      let (name, value?) := splitValue name
      if name = "help" then
        if value?.isNone then .error .help else .error (.usage (.unwantedValue name))
      else
        match specs.find? (·.long == name), value? with
        | none, _ => .error (.usage (.unexpected word))
        | some spec, some value =>
          if spec.takesValue then do
            let found ← spec.add value found
            readOptions specs found rest
          else .error (.usage (.unwantedValue name))
        | some spec, none =>
          if spec.takesValue then
            match rest with
            | [] => .error (.usage (.missingValue name))
            | value :: rest =>
              if looksLikeOption value then .error (.usage (.missingValue name))
              else do
                let found ← spec.add value found
                readOptions specs found rest
          else do
            let found ← spec.add "" found
            readOptions specs found rest
    | '-' :: c :: row => do
      match ← readRow specs found (c :: row) with
      | (found, none) => readOptions specs found rest
      | (found, some spec) =>
        match rest with
        | [] => .error (.usage (.missingValue spec.long))
        | value :: rest =>
          if looksLikeOption value then .error (.usage (.missingValue spec.long))
          else do
            let found ← spec.add value found
            readOptions specs found rest
    | _ => .ok (found, word :: rest)

/-- The value of an option. -/
def value? (found : List Occurrence) (option : String) : Option String :=
  (found.find? (·.option == option)).map (·.value)

/-- All values of an option, in order. -/
def values (found : List Occurrence) (option : String) : List String :=
  (found.filter (·.option == option)).map (·.value)

/-- Whether an option is given. -/
def isGiven (found : List Occurrence) (option : String) : Bool :=
  found.any (·.option == option)

end WireSchema.CommandLine
