/-!
# Paths of files

Paths are texts whose parts are set off by slashes. Empty parts and single dots lead nowhere; every
other part is a step.
-/

namespace WireSchema.CommandLine

/-- The parts of a path. -/
abbrev Parts := List String

/-- The path of a file in a folder; a path from the root stays as it is. -/
def joinPath (folder file : String) : String :=
  if file.startsWith "/" then file
  else if folder.isEmpty || folder.endsWith "/" then folder ++ file
  else folder ++ "/" ++ file

/-- A name without its extension: what comes in front of the last dot, unless that is nothing. -/
def stem (name : List Char) : List Char :=
  match (name.reverse.dropWhile (· != '.')).drop 1 with
  | [] => name
  | reversed => reversed.reverse

/-- The path with another extension in place of the one its last part has, if any. A name that is
one or two dots once its extension is cut off leads to a folder: it stays like that. -/
def withExtension (extension path : String) : String :=
  let reversed := path.toList.reverse
  let name := (reversed.takeWhile (· != '/')).reverse
  let folder := (reversed.dropWhile (· != '/')).reverse
  if stem name = ['.'] then String.ofList (folder ++ name.takeWhile (· == '.'))
  else String.ofList (folder ++ stem name) ++ "." ++ extension

/-- Whether a part of a path leads somewhere else. -/
def isStep (part : String) : Bool :=
  part != "" && part != "."

/-- The beginnings of a path that end with a step, shortest first, behind those walked already. -/
def stops (walked : Parts) : Parts → List Parts
  | [] => []
  | part :: rest =>
    let walked := walked ++ [part]
    if isStep part then walked :: stops walked rest else stops walked rest

/-- The folders to make for a path, outermost first: those its steps lead through, and then the path
as it is written. A single dot at its end is no step, so that it is left to the path itself. -/
def foldersAlong (path : String) : List String :=
  (stops [] (path.splitOn "/")).dropLast.map "/".intercalate ++ [path]

end WireSchema.CommandLine
