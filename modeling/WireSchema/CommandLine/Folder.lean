import WireSchema.CommandLine.Run

/-!
# A folder in memory

The services of a command over files that are values. Paths are taken from the folder itself and do
not leave it; a folder exists when a file lies below it or when it was made. Names and paths have
the lengths that file systems allow.
-/

namespace WireSchema.CommandLine

/-- The most bytes a name has. -/
def maxNameBytes : Nat := 255

/-- The most bytes a path has. -/
def maxPathBytes : Nat := 4095

/-- Files and folders, with what was printed. -/
structure Folder where
  files : List (Parts × List UInt8)
  made : List Parts := []
  /-- Lines printed so far, latest first. -/
  printed : List String := []

namespace Folder

/-- Whether there is a folder at a place. -/
def isFolder (d : Folder) (place : Parts) : Bool :=
  place.isEmpty || d.made.contains place ||
    d.files.any fun (file, _) => place.isPrefixOf file && place != file

/-- Where one more part of a path leads, from a folder. -/
def enter (d : Folder) (place : Parts) (part : String) : Option Parts :=
  if !d.isFolder place then none
  else if !isStep part then some place
  else if part = ".." then if place.isEmpty then none else some place.dropLast
  else if part.utf8ByteSize > maxNameBytes then none
  else some (place ++ [part])

/-- The parts of a path as written; none for one from the root and for one that is too long. -/
def parts? (path : String) : Option Parts :=
  if path.startsWith "/" || path.utf8ByteSize > maxPathBytes then none
  else some (path.splitOn "/")

/-- Where a path to a file leads. Its last part has to be a name. -/
def locate (d : Folder) (path : String) : Option Parts := do
  let parts ← parts? path
  match parts.getLast? with
  | none | some "" | some "." | some ".." => none
  | some _ => parts.foldlM d.enter []

/-- The bytes of a file. -/
def read (d : Folder) (path : String) : Option (List UInt8) := do
  d.files.lookup (← d.locate path)

/-- Writes a file, unless a folder is in its place. -/
def write (d : Folder) (path : String) (bytes : List UInt8) : Option Folder := do
  let place ← d.locate path
  if d.isFolder place then none
  else some { d with files := (place, bytes) :: d.files.filter (·.1 != place) }

/-- Makes one folder in a folder that is there, unless a file is in its place. Slashes at the end of
its path do not matter. -/
def make (d : Folder) (path : String) : Option Folder := do
  let place ← ((← parts? path).filter (· != "")).foldlM d.enter []
  if d.isFolder place then some d
  else if (d.files.lookup place).isSome then none
  else some { d with made := place :: d.made }

/-- Makes a folder and those around it. -/
def makeFolder (d : Folder) (path : String) : Option Folder :=
  (foldersAlong path).foldlM make d

/-- The services of a command, over a folder. -/
def host : Host (StateM Folder) where
  read path := return (← get).read path
  write path bytes := do
    match (← get).write path bytes with
    | some d => set d; return true
    | none => return false
  makeFolder path := do
    match (← get).makeFolder path with
    | some d => set d; return true
    | none => return false
  print line := modify fun d => { d with printed := line :: d.printed }
  log _ := return ()

/-- Files that are not in another folder with the same bytes. -/
def changes (d before : Folder) : List (Parts × List UInt8) :=
  d.files.filter fun (place, bytes) => before.files.lookup place != some bytes

end Folder

/-- How a run of the program ends. -/
inductive Exit where
  | success
  | failure (e : Error)
  | usage
  deriving DecidableEq, Repr

/-- The status a run ends with. -/
def Exit.code : Exit → Nat
  | .success => 0
  | .failure _ => 1
  | .usage => 2

/-- Runs the program on the words of a command line, in a folder. -/
def runIn (folder : Folder) (words : List String) : Exit × Folder :=
  match Invocation.ofWords words with
  | .error .help => (.success, folder)
  | .error (.usage _) => (.usage, folder)
  | .ok invocation =>
    match (invocation.command.run Folder.host).run folder with
    | (.ok (), folder) => (.success, folder)
    | (.error (.error e), folder) => (.failure e, folder)
    | (.error (.usage _), folder) => (.usage, folder)

end WireSchema.CommandLine
