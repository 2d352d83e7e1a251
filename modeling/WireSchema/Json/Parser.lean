import WireSchema.Json.Literal

/-!
# Reading JSON

The text is read character by character by a machine whose state is the stack of open containers,
what may come next, and the lexeme being collected. A text is a document if the machine takes every
character and ends with one finished value and nothing open. Containers nest 127 deep at most.
-/

namespace WireSchema.Json

/-- One more than the number of containers that may be open at once. -/
def nestingLimit : Nat := 128

/-- A container that is still open, with its finished parts, latest first. -/
inductive Frame where
  | array (items : List Json)
  /-- `key` belongs to the member being read. -/
  | object (members : List (String × Json)) (key : String)

/-- What may come next. -/
inductive Expecting where
  | value
  /-- Just behind an opening bracket. -/
  | firstItem
  /-- Just behind an opening brace. -/
  | firstKey
  | key
  | colon (key : String)
  /-- Behind a value: a comma, the end of its container, or the end of the text. -/
  | next

/-- The lexeme being collected; characters are held latest first. -/
inductive Lexeme where
  | none
  | word (chars : List Char)
  | number (chars : List Char)
  | text (chars : List Char)
  /-- Behind a backslash. -/
  | escape (chars : List Char)
  /-- Behind `\u`, with `left` of its four digits to come; `high` is a first surrogate that waits
  for its second. -/
  | unit (chars : List Char) (high : Option Nat) (left : Nat) (value : Nat)
  /-- Behind a first surrogate, where a backslash has to follow. -/
  | surrogate (chars : List Char) (high : Nat)
  /-- Behind a first surrogate and a backslash, where a `u` has to follow. -/
  | surrogateEscape (chars : List Char) (high : Nat)

/-- The state of the machine. -/
structure Machine where
  stack : List Frame := []
  expecting : Expecting := .value
  lexeme : Lexeme := .none
  /-- The document, once it is complete. -/
  result : Option Json := none

namespace Machine

/-- Takes a finished value. -/
def accept (m : Machine) (v : Json) : Option Machine :=
  match m.expecting with
  | .value | .firstItem =>
    match m.stack with
    | [] => some { m with result := some v, expecting := .next }
    | .array items :: stack =>
      some { m with stack := .array (v :: items) :: stack, expecting := .next }
    | .object members key :: stack =>
      some { m with stack := .object ((key, v) :: members) key :: stack, expecting := .next }
  | _ => none

/-- Takes a finished string, which is a value or a key. -/
def acceptText (m : Machine) (text : String) : Option Machine :=
  match m.expecting with
  | .key | .firstKey => some { m with expecting := .colon text }
  | _ => m.accept (.string text)

/-- Opens a container. -/
def push (m : Machine) (frame : Frame) (expecting : Expecting) : Option Machine :=
  match m.expecting with
  | .value | .firstItem =>
    if m.stack.length + 1 < nestingLimit then
      some { m with stack := frame :: m.stack, expecting }
    else none
  | _ => none

/-- Closes the innermost container and takes it as a value. -/
def pop (m : Machine) (v : Json) (stack : List Frame) : Option Machine :=
  accept { m with stack, expecting := .value } v

/-- Puts a member into an object whose members are held latest first. -/
def addMember (done : List (String × Json)) (key : String) (value : Json) : List (String × Json) :=
  if (done.lookup key).isSome then insertMember key value done else (key, value) :: done

/-- The members of an object, of which these were read, latest first. -/
def members (read : List (String × Json)) : List (String × Json) :=
  (read.reverse.foldl (fun done (key, value) => addMember done key value) []).reverse

/-- A character between lexemes. -/
def punctuation (m : Machine) (c : Char) : Option Machine :=
  match c, m.expecting, m.stack with
  | ' ', _, _ | '\t', _, _ | '\n', _, _ | '\r', _, _ => some m
  | '"', _, _ => some { m with lexeme := .text [] }
  | '[', _, _ => m.push (.array []) .firstItem
  | '\x7b', _, _ => m.push (.object [] "") .firstKey
  | ':', .colon key, .object members _ :: stack =>
    some { m with stack := .object members key :: stack, expecting := .value }
  | ',', .next, .array _ :: _ => some { m with expecting := .value }
  | ',', .next, .object _ _ :: _ => some { m with expecting := .key }
  | ']', .next, .array items :: stack => m.pop (.array items.reverse) stack
  | ']', .firstItem, .array _ :: stack => m.pop (.array []) stack
  | '\x7d', .next, .object read _ :: stack => m.pop (.object (members read)) stack
  | '\x7d', .firstKey, .object _ _ :: stack => m.pop (.object []) stack
  | c, _, _ =>
    if c.isAlpha then some { m with lexeme := .word [c] }
    else if c.isDigit || c == '-' then some { m with lexeme := .number [c] }
    else none

/-- Takes a finished word. -/
def endWord (m : Machine) (word : List Char) : Option Machine :=
  let m := { m with lexeme := .none }
  match String.ofList word.reverse with
  | "null" => m.accept .null
  | "true" => m.accept (.bool true)
  | "false" => m.accept (.bool false)
  | _ => none

/-- Takes a finished number. -/
def endNumber (m : Machine) (digits : List Char) : Option Machine := do
  accept { m with lexeme := .none } (.number (← number? digits.reverse))

/-- A character of a number literal. -/
def isNumberChar (c : Char) : Bool :=
  c.isDigit || c == '-' || c == '+' || c == '.' || c == 'e' || c == 'E'

/-- The character a one-letter escape stands for. -/
def escaped? : Char → Option Char
  | '"' => some '"'
  | '\\' => some '\\'
  | '/' => some '/'
  | 'b' => some '\x08'
  | 'f' => some '\x0c'
  | 'n' => some '\n'
  | 'r' => some '\r'
  | 't' => some '\t'
  | _ => none

def hexValue? (c : Char) : Option Nat :=
  if c.isDigit then some (c.toNat - '0'.toNat)
  else if 'a' ≤ c ∧ c ≤ 'f' then some (c.toNat - 'a'.toNat + 10)
  else if 'A' ≤ c ∧ c ≤ 'F' then some (c.toNat - 'A'.toNat + 10)
  else none

/-- Takes a finished 16-bit unit of an escape: a character, or half of one. -/
def endUnit (m : Machine) (chars : List Char) (high : Option Nat) (unit : Nat) : Option Machine :=
  match high with
  | some high =>
    if 0xDC00 ≤ unit ∧ unit < 0xE000 then
      let c := Char.ofNat (0x10000 + (high - 0xD800) * 0x400 + (unit - 0xDC00))
      some { m with lexeme := .text (c :: chars) }
    else none
  | none =>
    if 0xD800 ≤ unit ∧ unit < 0xDC00 then some { m with lexeme := .surrogate chars unit }
    else if 0xDC00 ≤ unit ∧ unit < 0xE000 then none
    else some { m with lexeme := .text (Char.ofNat unit :: chars) }

/-- Reads one character. -/
def step (m : Machine) (c : Char) : Option Machine :=
  match m.lexeme with
  | .none => m.punctuation c
  | .word chars =>
    if c.isAlpha then some { m with lexeme := .word (c :: chars) }
    else do (← m.endWord chars).punctuation c
  | .number chars =>
    if isNumberChar c then some { m with lexeme := .number (c :: chars) }
    else do (← m.endNumber chars).punctuation c
  | .text chars =>
    if c = '"' then acceptText { m with lexeme := .none } (String.ofList chars.reverse)
    else if c = '\\' then some { m with lexeme := .escape chars }
    else if c.toNat < 0x20 then none
    else some { m with lexeme := .text (c :: chars) }
  | .escape chars =>
    if c = 'u' then some { m with lexeme := .unit chars none 4 0 }
    else do
      let c ← escaped? c
      some { m with lexeme := .text (c :: chars) }
  | .unit chars high left value => do
    let value := value * 16 + (← hexValue? c)
    if left ≤ 1 then m.endUnit chars high value
    else some { m with lexeme := .unit chars high (left - 1) value }
  | .surrogate chars high =>
    if c = '\\' then some { m with lexeme := .surrogateEscape chars high } else none
  | .surrogateEscape chars high =>
    if c = 'u' then some { m with lexeme := .unit chars (some high) 4 0 } else none

/-- The document read, if it is complete. -/
def finish (m : Machine) : Option Json := do
  let m ←
    match m.lexeme with
    | .none => some m
    | .word chars => m.endWord chars
    | .number chars => m.endNumber chars
    | _ => none
  match m.stack with
  | [] => m.result
  | _ => none

end Machine

/-- The document a text holds. -/
def parse? (text : String) : Option Json := do
  (← text.toList.foldlM Machine.step {}).finish

end WireSchema.Json
