import WireSchema.Json.Basic
import WireSchema.Number.Decimal
import WireSchema.Text.Quoted

/-!
# Writing JSON

Two forms: `compact` has no blanks at all; `pretty` puts every item on a line of its own, two blanks
further in than its container, and writes empty containers as a pair of brackets.
-/

namespace WireSchema

/-- A float has an exponent outside the positions -5 to 15 of its first digit; otherwise it always
shows a fraction. -/
def Number.style : DecimalStyle where
  isPositional e := -5 ≤ e && e ≤ 15
  showsFraction := true

/-- The text of a number. -/
def Number.render : Number → String
  | .int i => toString i
  | .float x => x.render style

namespace Json

mutual

/-- The compact text of a value, added at the end of `out`. -/
def compactOnto (out : String) : Json → String
  | .null => out ++ "null"
  | .bool true => out ++ "true"
  | .bool false => out ++ "false"
  | .number n => out ++ n.render
  | .string s => Text.quoteOnto out s
  | .array items => (compactItems (out.push '[') "" items).push ']'
  | .object members => (compactMembers (out.push '\x7b') "" members).push '\x7d'

/-- Items, with `separator` in front of the first and a comma in front of every other. -/
def compactItems (out separator : String) : List Json → String
  | [] => out
  | v :: rest => compactItems (compactOnto (out ++ separator) v) "," rest

/-- Members, with `separator` in front of the first and a comma in front of every other. -/
def compactMembers (out separator : String) : List (String × Json) → String
  | [] => out
  | (key, v) :: rest =>
    compactMembers (compactOnto ((Text.quoteOnto (out ++ separator) key).push ':') v) "," rest

end

/-- The text of a value without any blanks. -/
def compact (v : Json) : String :=
  compactOnto "" v

/-- A line break and the blanks in front of a line at a depth. -/
def lineBreak (depth : Nat) : String :=
  String.ofList ('\n' :: List.replicate (2 * depth) ' ')

mutual

/-- The text of a value at a depth, over several lines, added at the end of `out`. -/
def prettyOnto (out : String) (depth : Nat) : Json → String
  | .array [] => out ++ "[]"
  | .array items => (prettyItems (out.push '[') "" (depth + 1) items ++ lineBreak depth).push ']'
  | .object [] => out ++ "\x7b\x7d"
  | .object members =>
    (prettyMembers (out.push '\x7b') "" (depth + 1) members ++ lineBreak depth).push '\x7d'
  | v => compactOnto out v

/-- Items, each on a line of its own. -/
def prettyItems (out separator : String) (depth : Nat) : List Json → String
  | [] => out
  | v :: rest => prettyItems (prettyOnto (out ++ separator ++ lineBreak depth) depth v) "," depth rest

/-- Members, each on a line of its own. -/
def prettyMembers (out separator : String) (depth : Nat) : List (String × Json) → String
  | [] => out
  | (key, v) :: rest =>
    let out := Text.quoteOnto (out ++ separator ++ lineBreak depth) key
    prettyMembers (prettyOnto (out ++ ": ") depth v) "," depth rest

end

/-- The text of a value over several lines. -/
def pretty (v : Json) : String :=
  prettyOnto "" 0 v

end Json

end WireSchema
