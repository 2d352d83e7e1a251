/-!
# Indented source text

Generated files are written line by line. A `CodeStep` is one line, a change of indentation, or
both; `CodeWriter` carries the lines and the current depth. An empty line is never indented, and a
blank line is only put behind a line that is not empty itself, so blank lines do not pile up.
-/

namespace WireSchema

/-- One thing to do to the text being written. -/
inductive CodeStep where
  | line (text : String)
  /-- A line that indents what follows. -/
  | enter (text : String)
  /-- A line that is one step further out than what came before. -/
  | leave (text : String)
  | blank
  | indent
  | dedent
  deriving DecidableEq, Repr

/-- Text being written. -/
structure CodeWriter where
  /-- One step of indentation. -/
  unit : String
  depth : Nat := 0
  /-- Lines written so far, latest first. -/
  lines : List String := []

namespace CodeWriter

/-- Writes a line at the current depth. -/
def line (w : CodeWriter) (text : String) : CodeWriter :=
  let indented := if text.isEmpty then "" else String.join (List.replicate w.depth w.unit) ++ text
  { w with lines := indented :: w.lines }

/-- Takes one step. -/
def step (w : CodeWriter) : CodeStep → CodeWriter
  | .line text => w.line text
  | .enter text => { w.line text with depth := w.depth + 1 }
  | .leave text => { w with depth := w.depth - 1 }.line text
  | .blank =>
    match w.lines with
    | last :: _ => if last.isEmpty then w else { w with lines := "" :: w.lines }
    | [] => w
  | .indent => { w with depth := w.depth + 1 }
  | .dedent => { w with depth := w.depth - 1 }

/-- Takes steps in order. -/
def run (w : CodeWriter) (steps : List CodeStep) : CodeWriter :=
  steps.foldl step w

/-- The finished text: no empty lines at the end, and a line break behind the last line. -/
def finish (w : CodeWriter) : String :=
  "\n".intercalate (w.lines.dropWhile String.isEmpty).reverse ++ "\n"

end CodeWriter

/-- The text of a list of steps, indented by `unit`. -/
def renderCode (unit : String) (steps : List CodeStep) : String :=
  (CodeWriter.run { unit } steps).finish

end WireSchema
