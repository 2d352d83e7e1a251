import WireSchema.CommandLine.Run

/-!
# The program

Reads the command line and carries the command out on the files of the machine. Failures and log
records go to the standard error.
-/

namespace WireSchema.CommandLine

/-- Whether a record is shown. -/
def isShown (invocation : Invocation) (level : Level) : Bool :=
  !invocation.quiet &&
    match level with
    | .warn => true
    | .info => invocation.verbosity ≥ 1
    | .debug => invocation.verbosity ≥ 2
    | .trace => invocation.verbosity ≥ 3

def levelName : Level → String
  | .warn => "WARN"
  | .info => "INFO"
  | .debug => "DEBUG"
  | .trace => "TRACE"

/-- Whether an action succeeds. -/
def succeeds (action : IO Unit) : IO Bool :=
  try
    action
    return true
  catch _ => return false

/-- Makes one folder, unless something is there: a file in its place shows when it is written to. -/
def makeFolderOnce (path : String) : IO Bool :=
  try
    IO.FS.createDir path
    return true
  catch
    | .alreadyExists .. => return true
    | _ => return false

/-- The services of a command, on the machine. -/
def machine (invocation : Invocation) : Host IO where
  read path :=
    try
      return some (← IO.FS.readBinFile path).data.toList
    catch _ => return none
  write path bytes := succeeds (IO.FS.writeBinFile path ⟨bytes.toArray⟩)
  makeFolder path := (foldersAlong path).allM makeFolderOnce
  print line := IO.println line
  log record := do
    if isShown invocation record.level then
      IO.eprintln s!"[{levelName record.level}] {record.text}"

def usageText : String :=
  "usage: ffire [-v] [-q] <validate|fixture|generate|decode|analyze> [options]"

end WireSchema.CommandLine

open WireSchema.CommandLine in
/-- Carries out the command that the arguments give. -/
def main (words : List String) : IO UInt32 := do
  match Invocation.ofWords words with
  | .error .help =>
    IO.println usageText
    return 0
  | .error (.usage problem) =>
    IO.eprintln s!"error: {problem.message}"
    IO.eprintln usageText
    return 2
  | .ok invocation =>
    match ← (invocation.command.run (machine invocation)).run with
    | .ok () => return 0
    | .error (.error e) =>
      IO.eprintln s!"Error: {e.message}"
      return 1
    | .error (.usage problem) =>
      IO.eprintln s!"error: {problem.message}"
      return 2
