/-!
# Quoted text

A text between double quotes in which the quote, the backslash and the control characters are
escaped. Everything else, a character outside ASCII included, stands for itself. Diagnostics quote
names this way and JSON documents quote their strings this way.
-/

namespace WireSchema.Text

/-- A digit of a hexadecimal number, in lower case. -/
def hexDigit (n : Nat) : Char :=
  (Nat.toDigits 16 (n % 16)).headD '0'

/-- What a character becomes between quotes. -/
def escape (c : Char) : List Char :=
  match c with
  | '"' => ['\\', '"']
  | '\\' => ['\\', '\\']
  | '\n' => ['\\', 'n']
  | '\r' => ['\\', 'r']
  | '\t' => ['\\', 't']
  | '\x08' => ['\\', 'b']
  | '\x0c' => ['\\', 'f']
  | c =>
    if c.toNat < 0x20 then ['\\', 'u', '0', '0', hexDigit (c.toNat / 16), hexDigit c.toNat]
    else [c]

/-- The text in quotes, added at the end of `out`. -/
def quoteOnto (out : String) (text : String) : String :=
  (text.foldl (fun out c => (escape c).foldl String.push out) (out.push '"')).push '"'

/-- The text in quotes. -/
def quote (text : String) : String :=
  quoteOnto "" text

end WireSchema.Text
