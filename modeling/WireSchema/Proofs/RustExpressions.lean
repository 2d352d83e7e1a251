import WireSchema.Code.RustFile
import WireSchema.Data.Value
import WireSchema.Source.Token

/-!
# What Rust expressions for sizes mean

Sizes are put together as text, and what a text means depends on how the language takes it apart.
So they are read here as the language reads them. A text is cut into words and signs; these are
parsed with `*` before `+`, both from the left, and calls before either. A conditional is an operand
like any other inside of an expression, but one that a block begins with is the whole block:
`parseTail` goes no further than its last brace.

An expression is evaluated to a number, a flag, a value in memory or the items of one. Values come
with their types, since it is the type that tells which routine `encoded_len` is. Sums and products
are 64-bit numbers; what happens to those that are larger depends on how the code was compiled, see
`Overflow`. A text that makes no sense means nothing.
-/

namespace WireSchema.RustCode

open Naming (rustField)
open Piece (isWordChar)

/-! ## Words and signs -/

/-- A piece of a text: a number, a name or a keyword, or a single other character. -/
inductive Lexeme where
  | word (text : String)
  | sign (c : Char)
  deriving DecidableEq

/-- The word that ends here, if there is one. -/
def Lexeme.ofPending (pending : List Char) : List Lexeme :=
  if pending.isEmpty then [] else [.word (String.ofList pending)]

/-- What a character by itself is; blanks are nothing. -/
def Lexeme.ofChar (c : Char) : List Lexeme :=
  if c = ' ' then [] else [.sign c]

/-- The words and signs of a text behind the beginning of a word. -/
def lexAfter (pending : List Char) : List Char → List Lexeme
  | [] => Lexeme.ofPending pending
  | c :: cs =>
    if isWordChar c then lexAfter (pending ++ [c]) cs
    else Lexeme.ofPending pending ++ Lexeme.ofChar c ++ lexAfter [] cs

/-- The words and signs of a text. -/
def lex (text : String) : List Lexeme :=
  lexAfter [] text.toList

/-! ## Expressions -/

/-- An expression as the language sees it. -/
inductive Expr where
  | literal (n : Nat)
  | var (x : String)
  /-- A constant of a type. -/
  | constant (type name : String)
  | field (e : Expr) (name : String)
  /-- A method without arguments. -/
  | call (e : Expr) (method : String)
  /-- `e.sum::<usize>()` -/
  | total (e : Expr)
  /-- `e.map_or(default, |v| body)` -/
  | mapOr (e default : Expr) (v : String) (body : Expr)
  /-- `e.map(|v| body)` -/
  | map (e : Expr) (v : String) (body : Expr)
  | add (a b : Expr)
  | mul (a b : Expr)
  | cond (c yes no : Expr)

/-- What is left of a text. -/
abbrev Rest := List Lexeme

/-- What follows a sign. -/
def sign? (c : Char) : Rest → Option Rest
  | .sign d :: rest => if d = c then some rest else none
  | _ => none

/-- What follows several signs. -/
def signs? (cs : List Char) (ts : Rest) : Option Rest :=
  cs.foldlM (fun ts c => sign? c ts) ts

/-- A word and what follows it. -/
def word? : Rest → Option (String × Rest)
  | .word w :: rest => some (w, rest)
  | _ => none

/-- What follows a certain word. -/
def keyword? (w : String) : Rest → Option Rest
  | .word x :: rest => if x = w then some rest else none
  | _ => none

/-- What follows a call that names the type of its result. -/
def typedCall? (ts : Rest) : Option Rest := do
  let ts ← signs? [':', ':', '<'] ts
  let ts ← keyword? "usize" ts
  signs? ['>', '(', ')'] ts

/-- Goes on with what is left of a text, as long as that gets shorter. -/
def goOn {α : Type} (ts rest : Rest) (next : rest.length < ts.length → Option α) : Option α :=
  if h : rest.length < ts.length then next h else none

mutual

/-- Products with plus signs between them. -/
def parseSum (ts : Rest) : Option (Expr × Rest) := do
  let (a, rest) ← parseProduct ts
  goOn ts rest fun _ => moreTerms a rest
termination_by 8 * ts.length + 5
decreasing_by all_goals omega

/-- The other terms of a sum that begins with `a`. -/
def moreTerms (a : Expr) (ts : Rest) : Option (Expr × Rest) :=
  match sign? '+' ts with
  | none => some (a, ts)
  | some rest => do
    let (b, rest) ← goOn ts rest fun _ => parseProduct rest
    goOn ts rest fun _ => moreTerms (.add a b) rest
termination_by 8 * ts.length
decreasing_by all_goals omega

/-- Operands with stars between them. -/
def parseProduct (ts : Rest) : Option (Expr × Rest) := do
  let (a, rest) ← parseOperand ts
  goOn ts rest fun _ => moreFactors a rest
termination_by 8 * ts.length + 4
decreasing_by all_goals omega

/-- The other factors of a product that begins with `a`. -/
def moreFactors (a : Expr) (ts : Rest) : Option (Expr × Rest) :=
  match sign? '*' ts with
  | none => some (a, ts)
  | some rest => do
    let (b, rest) ← goOn ts rest fun _ => parseOperand rest
    goOn ts rest fun _ => moreFactors (.mul a b) rest
termination_by 8 * ts.length
decreasing_by all_goals omega

/-- Something with fields and methods behind it. -/
def parseOperand (ts : Rest) : Option (Expr × Rest) := do
  let (a, rest) ← parsePrimary ts
  goOn ts rest fun _ => moreCalls a rest
termination_by 8 * ts.length + 3
decreasing_by all_goals omega

/-- The fields and methods behind `a`. A name with a bracket behind it is a method. -/
def moreCalls (a : Expr) (ts : Rest) : Option (Expr × Rest) :=
  match sign? '.' ts with
  | none => some (a, ts)
  | some rest => do
    let (name, rest) ← word? rest
    match sign? '(' rest, typedCall? rest with
    | some rest, _ => do
      let (b, rest) ← goOn ts rest fun _ => parseArguments a name rest
      goOn ts rest fun _ => moreCalls b rest
    | none, some rest =>
      if name = "sum" then goOn ts rest fun _ => moreCalls (.total a) rest else none
    | none, none => goOn ts rest fun _ => moreCalls (.field a name) rest
termination_by 8 * ts.length
decreasing_by all_goals omega

/-- The arguments of a method of `a`, behind the bracket. -/
def parseArguments (a : Expr) (method : String) (ts : Rest) : Option (Expr × Rest) :=
  if method = "map_or" then do
    let (d, rest) ← parseSum ts
    let rest ← sign? ',' rest
    let (v, body, rest) ← goOn ts rest fun _ => parseClosure rest
    return (.mapOr a d v body, ← sign? ')' rest)
  else if method = "map" then do
    let (v, body, rest) ← parseClosure ts
    return (.map a v body, ← sign? ')' rest)
  else do
    return (.call a method, ← sign? ')' ts)
termination_by 8 * ts.length + 6
decreasing_by all_goals omega

/-- A function of one variable, which reaches as far as an expression can. -/
def parseClosure (ts : Rest) : Option (String × Expr × Rest) := do
  let rest ← sign? '|' ts
  let (v, rest) ← word? rest
  let rest ← sign? '|' rest
  let (body, rest) ← goOn ts rest fun _ => parseSum rest
  return (v, body, rest)
termination_by 8 * ts.length
decreasing_by all_goals omega

/-- What operands begin with. -/
def parsePrimary (ts : Rest) : Option (Expr × Rest) :=
  match sign? '(' ts with
  | some rest => do
    let (e, rest) ← goOn ts rest fun _ => parseSum rest
    return (e, ← sign? ')' rest)
  | none => do
    let (w, rest) ← word? ts
    if w = "if" then goOn ts rest fun _ => parseConditional rest
    else if w.toList.all Char.isDigit then some (.literal (Nat.ofDigitChars 10 w.toList 0), rest)
    else
      match signs? [':', ':'] rest with
      | some rest => do
        let (name, rest) ← word? rest
        return (.constant w name, rest)
      | none => some (.var w, rest)
termination_by 8 * ts.length
decreasing_by all_goals omega

/-- A conditional, behind its first word. -/
def parseConditional (ts : Rest) : Option (Expr × Rest) := do
  let (c, rest) ← parseSum ts
  let rest ← sign? '\x7b' rest
  let (yes, rest) ← goOn ts rest fun _ => parseTail rest
  let rest ← sign? '\x7d' rest
  let rest ← keyword? "else" rest
  let rest ← sign? '\x7b' rest
  let (no, rest) ← goOn ts rest fun _ => parseTail rest
  return (.cond c yes no, ← sign? '\x7d' rest)
termination_by 8 * ts.length + 6
decreasing_by all_goals omega

/-- The expression at the end of a block. -/
def parseTail (ts : Rest) : Option (Expr × Rest) :=
  match keyword? "if" ts with
  | some rest => goOn ts rest fun _ => parseConditional rest
  | none => parseSum ts
termination_by 8 * ts.length + 6
decreasing_by all_goals omega

end

/-- The expression, if the text ends with it. -/
def whole? : Option (Expr × Rest) → Option Expr
  | some (e, []) => some e
  | _ => none

/-- The expression that stands between the brackets of a call. -/
def readArgument (text : String) : Option Expr :=
  whole? (parseSum (lex text))

/-- The expression that stands between the braces of a function. -/
def readBody (text : String) : Option Expr :=
  whole? (parseTail (lex text))

/-! ## Evaluation -/

/-- What happens to numbers that 64 bits do not hold. -/
inductive Overflow where
  /-- The program is stopped. -/
  | panics
  /-- Only the last 64 bits are kept. -/
  | wraps
  deriving DecidableEq

/-- The result of a calculation. -/
def Overflow.result? : Overflow → Nat → Option Nat
  | .panics, n => if n ≤ maxSize then some n else none
  | .wraps, n => some (n % 2 ^ (64 : Nat))

/-- What an expression stands for. -/
inductive Meaning where
  | size (n : Nat)
  | flag (b : Bool)
  /-- A value in memory. -/
  | object (t : Ty) (v : Value)
  /-- The items of an array. -/
  | items (t : Ty) (vs : List Value)
  /-- Sizes that are still to be added up. -/
  | sizes (ns : List Nat)

/-- A number. -/
def Meaning.size? : Meaning → Option Nat
  | .size n => some n
  | _ => none

/-- What stands around an expression. -/
structure Surroundings where
  schema : Schema
  overflow : Overflow
  /-- The constant of the struct at hand. -/
  constant : Option Nat
  /-- The routine of a struct that gives its size. -/
  encodedLen : Nat → Value → Option Nat

/-- The field of a struct. -/
def Meaning.field? (s : Schema) (name : String) : Meaning → Option Meaning
  | .object (.struct id false) (.record values) =>
    (((s.fieldsOf id).zip values).map fun p =>
      (rustField p.1.name, Meaning.object p.1.ty p.2)).lookup name
  | _ => none

/-- The result of a method without arguments. -/
def Meaning.method? (around : Surroundings) (method : String) : Meaning → Option Meaning
  | .object (.primitive .string false) (.text text) =>
    if method = "len" then some (.size text.utf8ByteSize) else none
  | .object (.array e false) (.list xs) =>
    if method = "len" then some (.size xs.length)
    else if method = "iter" then some (.items e xs)
    else none
  | .object (.struct id false) v =>
    if method = "encoded_len" then (around.encodedLen id v).map .size else none
  | .object t v =>
    if t.optional then
      if method = "is_some" then some (.flag !v.isAbsent)
      else if method = "as_ref" then some (.object t v)
      else none
    else none
  | _ => none

/-- The variables in scope, latest first. -/
abbrev Variables := List (String × Ty × Value)

/-- Evaluates an expression. -/
@[simp] def Expr.eval (around : Surroundings) (vars : Variables) : Expr → Option Meaning
  | .literal n => if n ≤ maxSize then some (.size n) else none
  | .var x => (vars.lookup x).map fun (t, v) => .object t v
  | .constant type name =>
    if type = "Self" ∧ name = "ENCODED_SIZE" then around.constant.map .size else none
  | .field e name => do (← e.eval around vars).field? around.schema name
  | .call e method => do (← e.eval around vars).method? around method
  | .total e => do
    match ← e.eval around vars with
    | .sizes ns => (ns.foldlM (fun a n => around.overflow.result? (a + n)) 0).map .size
    | _ => none
  | .mapOr e default v body => do
    let m ← e.eval around vars
    let d ← default.eval around vars
    match m with
    | .object t (.present x) =>
      if t.optional then body.eval around ((v, t.required, x) :: vars) else none
    | .object t .absent => if t.optional then some d else none
    | _ => none
  | .map e v body => do
    match ← e.eval around vars with
    | .items t xs =>
      (xs.mapM fun x => do (← body.eval around ((v, t, x) :: vars)).size?).map .sizes
    | _ => none
  | .add a b => do
    let m ← (← a.eval around vars).size?
    let n ← (← b.eval around vars).size?
    (around.overflow.result? (m + n)).map .size
  | .mul a b => do
    let m ← (← a.eval around vars).size?
    let n ← (← b.eval around vars).size?
    (around.overflow.result? (m * n)).map .size
  | .cond c yes no => do
    match ← c.eval around vars with
    | .flag true => yes.eval around vars
    | .flag false => no.eval around vars
    | _ => none

end WireSchema.RustCode
