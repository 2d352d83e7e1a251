import WireSchema.Text.Bounds
import WireSchema.Text.CaseTable

/-!
# Letter case

The full Unicode case mappings of characters and texts. A character can become several, and the
lower case of a capital sigma depends on the letters around it: at the end of a word it is the final
form. ASCII letters are decided without the tables.
-/

namespace WireSchema.Text

def isAscii (c : Char) : Bool :=
  c.toNat < 0x80

namespace CaseStretch

/-- Whether the stretch maps a character. -/
def covers (s : CaseStretch) (c : Char) : Bool :=
  s.first ≤ c.toNat && c.toNat ≤ s.last && (c.toNat - s.first) % s.step == 0

/-- What the stretch maps a character to. -/
def image (s : CaseStretch) (c : Char) : Char :=
  Char.ofNat (c.toNat + s.shift).toNat

end CaseStretch

/-- What the tables map a character to, if they do. -/
def mapped? (sequences : List (Nat × List Nat)) (stretches : List CaseStretch) (c : Char) :
    Option (List Char) :=
  match sequences.lookup c.toNat with
  | some points => some (points.map Char.ofNat)
  | none => (stretches.find? (·.covers c)).map fun s => [s.image c]

/-- The lower case of a character outside ASCII, if it is something else. -/
def lowerMapped? (c : Char) : Option (List Char) :=
  mapped? lowerSequences lowerStretches c

/-- The upper case of a character outside ASCII, if it is something else. -/
def upperMapped? (c : Char) : Option (List Char) :=
  mapped? upperSequences upperStretches c

/-- The lower case of a character by itself. -/
def lowerChar (c : Char) : List Char :=
  if isAscii c then [c.toLower] else (lowerMapped? c).getD [c]

/-- The upper case of a character. -/
def upperChar (c : Char) : List Char :=
  if isAscii c then [c.toUpper] else (upperMapped? c).getD [c]

/-- A title case letter: one character that stands for a capital and a small letter. -/
def isTitlecase (c : Char) : Bool :=
  inBounds titlecaseBounds c

/-- A character of the property `Uppercase`. -/
def isUppercase (c : Char) : Bool :=
  if isAscii c then c.isUpper
  else ((lowerMapped? c).isSome && !isTitlecase c) || inBounds uppercaseBounds c

/-- A character of the property `Lowercase`. -/
def isLowercase (c : Char) : Bool :=
  if isAscii c then c.isLower
  else ((upperMapped? c).isSome && !isTitlecase c) || inBounds lowercaseBounds c

/-- A character of the property `Cased`. -/
def isCased (c : Char) : Bool :=
  isUppercase c || isLowercase c || isTitlecase c

/-- A character of the property `Case_Ignorable`. -/
def isIgnorable (c : Char) : Bool :=
  inBounds ignorableBounds c

/-- The first character that is not looked through is a letter with a case. -/
def meetsCased (cs : List Char) : Bool :=
  match cs.dropWhile isIgnorable with
  | c :: _ => isCased c
  | [] => false

/-- The lower case of a character between `before` (nearest first) and `after`. -/
def lowerWithin (before : List Char) (c : Char) (after : List Char) : List Char :=
  if c = 'Σ' then [if meetsCased before && !meetsCased after then 'ς' else 'σ'] else lowerChar c

/-- The lower case of a text that follows `before` (nearest first). -/
def lowerAfter (before : List Char) : List Char → List Char
  | [] => []
  | c :: after => lowerWithin before c after ++ lowerAfter (c :: before) after

/-- The lower case of a text. -/
def lower (cs : List Char) : List Char :=
  lowerAfter [] cs

/-- The upper case of a text. -/
def upper (cs : List Char) : List Char :=
  cs.flatMap upperChar

end WireSchema.Text
