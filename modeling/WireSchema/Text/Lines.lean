/-!
# Lines of a text
-/

namespace WireSchema.Text

/-- A line, given from its end, without the carriage return there. -/
def dropReturn : List Char → List Char
  | '\r' :: rest => rest
  | line => line

/-- The lines that end in a text. What was read of the first of them is in `line`, latest first. -/
def linesFrom (line : List Char) : List Char → List String
  | [] => []
  | c :: cs =>
    if c = '\n' then String.ofList (dropReturn line).reverse :: linesFrom [] cs
    else linesFrom (c :: line) cs

/-- The lines of a text whose last line is ended too. A line ends with a line feed, or with a
carriage return and a line feed. -/
def lines (text : String) : List String :=
  linesFrom [] text.toList

end WireSchema.Text
