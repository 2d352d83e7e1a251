import WireSchema.Text.Bounds
import WireSchema.Text.HiddenTable

/-!
# Text made visible

A text between double quotes in which everything that does not show is written by its code point.
-/

namespace WireSchema.Text

/-- Whether a character shows by itself. -/
def isVisible (c : Char) : Bool :=
  c.toNat ≥ 0x20 &&
    !(inBounds hiddenLow c || inBounds hiddenMiddle c || inBounds hiddenHigh c)

/-- What a character becomes between quotes. -/
def visible (c : Char) : String :=
  match c with
  | '"' => "\\\""
  | '\\' => "\\\\"
  | '\n' => "\\n"
  | '\r' => "\\r"
  | '\t' => "\\t"
  | '\x00' => "\\0"
  | c =>
    if isVisible c then c.toString
    else "\\u\x7b" ++ String.ofList (Nat.toDigits 16 c.toNat) ++ "\x7d"

/-- The text in quotes. -/
def quoteVisible (text : String) : String :=
  "\"" ++ String.join (text.toList.map visible) ++ "\""

end WireSchema.Text
