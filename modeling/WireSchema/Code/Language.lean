import WireSchema.Text.Visible

/-!
# Target languages
-/

namespace WireSchema

/-- A language code can be generated for. -/
inductive Language where
  | rust
  | cpp
  deriving DecidableEq, Repr

namespace Language

def all : List Language := [.rust, .cpp]

def name : Language → String
  | .rust => "rust"
  | .cpp => "cpp"

/-- A name with its ASCII capitals made small. -/
def foldCase (name : String) : String :=
  name.map Char.toLower

/-- The language of a name; case does not matter and each language has short names. -/
def ofName? (name : String) : Option Language :=
  match foldCase name with
  | "rust" | "rs" => some .rust
  | "cpp" | "c++" | "cxx" => some .cpp
  | _ => none

/-- What a user is told about a name that is no language. -/
def unknownMessage (name : String) : String :=
  "unknown language " ++ Text.quoteVisible (foldCase name) ++ ", expected one of: "
    ++ ", ".intercalate (all.map Language.name)

end Language

end WireSchema
