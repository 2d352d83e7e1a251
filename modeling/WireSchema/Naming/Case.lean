import WireSchema.Text.Case

/-!
# Names in other cases

Types of generated code are named in `PascalCase`, fields and functions in `snake_case`.
-/

namespace WireSchema.Naming

/-- A word with its first character in upper case, and the rest in lower case if so asked. -/
def capitalize (lowerRest : Bool) : List Char → List Char
  | [] => []
  | c :: rest => Text.upperChar c ++ if lowerRest then Text.lower rest else rest

/-- The words between underscores, empty ones included. -/
def words : List Char → List (List Char)
  | [] => [[]]
  | c :: rest =>
    match words rest with
    | [] => [[c]]
    | word :: more => if c = '_' then [] :: word :: more else (c :: word) :: more

/-- The name in `PascalCase`. With underscores, every word is capitalized and the rest of it made
small; without, only a name that is all capitals is made small behind its first letter. -/
def pascal (name : String) : String :=
  let cs := name.toList
  String.ofList <|
    if cs.contains '_' then (words cs).flatMap (capitalize true)
    else capitalize (Text.upper cs == cs) cs

/-- A capital behind `previous` and in front of `rest` starts a word: behind a character that is no
capital, or as the last capital of a row that a small letter follows. -/
def startsWord (previous : Option Char) (rest : List Char) : Bool :=
  match previous with
  | none => false
  | some p =>
    p != '_' && (!Text.isUppercase p || (rest.head?.map Text.isLowercase).getD false)

/-- The rest of a name in `snake_case`, behind the character `previous`. -/
def snakeAfter (previous : Option Char) : List Char → List Char
  | [] => []
  | c :: rest =>
    let here :=
      if Text.isUppercase c then
        (if startsWord previous rest then ['_'] else []) ++ Text.lowerChar c
      else [c]
    here ++ snakeAfter (some c) rest

/-- The name in `snake_case`. Capitals in a row stay together, so `sessionID` becomes `session_id`
and `HTTPServer` becomes `http_server`. -/
def snake (name : String) : String :=
  String.ofList (snakeAfter none name.toList)

end WireSchema.Naming
