/-!
# Paths into a document

Where in a document a problem lies: a list of steps, the innermost first, shown as
`devices[3].position.x`.
-/

namespace WireSchema

/-- One step into a document. -/
inductive PathStep where
  | key (name : String)
  | index (i : Nat)
  deriving DecidableEq, Repr

/-- The steps to a value, innermost first. -/
abbrev Path := List PathStep

/-- The text of a path with one more step. A key is set off by a point unless nothing precedes it. -/
def PathStep.appendTo (text : String) : PathStep → String
  | .key name => if text.isEmpty then name else text ++ "." ++ name
  | .index i => text ++ "[" ++ toString i ++ "]"

/-- The text of a path. -/
def Path.render (path : Path) : String :=
  path.foldr (fun step text => step.appendTo text) ""

end WireSchema
