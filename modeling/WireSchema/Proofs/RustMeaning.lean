import WireSchema.Code.RustRoutine
import WireSchema.Data.Value
import WireSchema.Wire.Reader
import WireSchema.Wire.Writer

/-!
# What Rust routines do

The statements of generated Rust routines are given their meaning here: what they do to a buffer when
they are run on values in memory. Names are looked up as the language does it. A binding hides an
earlier one of its name, a block takes its bindings with it, and pushing to a vector changes whatever
variable its name stands for at that point. A routine that goes wrong in a way the language would not
let pass (a name that stands for nothing or for the wrong kind of thing, an index out of bounds) is
`stuck`, so that a routine which is never stuck has all its names in order.

Structs call the routines of the structs inside them. `depth` bounds how deep such calls may lie
inside each other; a routine that goes deeper is stuck too.
-/

namespace WireSchema.RustCode

open Wire

/-- Why a routine does not come to its end. -/
inductive Stop where
  /-- The buffer cannot be read from or written to. -/
  | failed (e : WireError)
  /-- The routine makes no sense. -/
  | stuck
  deriving DecidableEq

/-! ## Names -/

/-- What a name stands for. -/
inductive Cell where
  | value (v : Value)
  /-- A length that was read. -/
  | count (n : Nat)
  /-- Bytes that were read as a block. -/
  | block (bytes : List UInt8)
  /-- The buffer a routine works on. -/
  | buffer

/-- The names that can be used at some point of a routine, latest first. -/
abbrev Scope := List (String × Cell)

/-- The name of the buffer in every routine. -/
def bufferVariable : String := "bb"

namespace Scope

/-- The value a name stands for. -/
def value? (scope : Scope) (name : String) : Option Value :=
  match scope.lookup name with
  | some (.value v) => some v
  | _ => none

/-- The length a name stands for. -/
def count? (scope : Scope) (name : String) : Option Nat :=
  match scope.lookup name with
  | some (.count n) => some n
  | _ => none

/-- The block of bytes a name stands for. -/
def block? (scope : Scope) (name : String) : Option (List UInt8) :=
  match scope.lookup name with
  | some (.block bytes) => some bytes
  | _ => none

/-- The name of the buffer stands for the buffer. -/
def hasBuffer (scope : Scope) : Bool :=
  match scope.lookup bufferVariable with
  | some .buffer => true
  | _ => false

/-- Pushes to the vector that a name stands for. -/
def push (name : String) (v : Value) : Scope → Option Scope
  | [] => none
  | (n, cell) :: rest =>
    if n = name then
      match cell with
      | .value (.list items) => some ((n, .value (.list (items ++ [v]))) :: rest)
      | _ => none
    else (push name v rest).map ((n, cell) :: ·)

/-- What is left of the names inside a block when it ends: those from outside of it. -/
def leave (outer inner : Scope) : Scope :=
  inner.drop (inner.length - outer.length)

end Scope

/-! ## Encoding -/

/-- The value at a place, among the fields of the struct at hand and the names in scope. -/
def Place.get (self : List (String × Value)) (scope : Scope) : Place → Option Value
  | .field name => self.lookup name
  | .ref name => scope.value? name

/-- Writes to the buffer. -/
def Scope.write (scope : Scope) (item : Item) (w : Writer) : Except Stop Writer :=
  if scope.hasBuffer then (w.write item).mapError .failed else .error .stuck

/-- The numbers in a vector of numbers. -/
def scalars? (kind : Numeric) (items : List Value) : Option (List Scalar) :=
  items.mapM fun item =>
    match item with
    | .scalar x => if x.kind = kind then some x else none
    | _ => none

/-- Runs a statement; `call` runs the routine of a struct. -/
def Encode.run (call : Nat → Value → Writer → Except Stop Writer) (self : List (String × Value)) :
    Scope → Encode → Writer → Except Stop Writer
  | scope, .bool p, w =>
    match p.get self scope with
    | some (.bool b) => scope.write (.bool b) w
    | _ => .error .stuck
  | scope, .string p, w =>
    match p.get self scope with
    | some (.text text) => scope.write (.string text) w
    | _ => .error .stuck
  | scope, .scalar kind p, w =>
    match p.get self scope with
    | some (.scalar x) => if x.kind = kind then scope.write (.scalar x) w else .error .stuck
    | _ => .error .stuck
  | scope, .struct id p, w =>
    match p.get self scope with
    | some v => if scope.hasBuffer then call id v w else .error .stuck
    | none => .error .stuck
  | scope, .slice kind p, w =>
    match p.get self scope with
    | some (.list items) =>
      match scalars? kind items with
      | some xs => scope.write (.scalars xs) w
      | none => .error .stuck
    | _ => .error .stuck
  | scope, .optional p v body, w =>
    match p.get self scope with
    | some (.present x) => do
      let w ← scope.write (.bool true) w
      body.run call self ((v, .value x) :: scope) w
    | some .absent => scope.write (.bool false) w
    | _ => .error .stuck
  | scope, .each p item body, w =>
    match p.get self scope with
    | some (.list items) => do
      let w ← scope.write (.length .array items.length) w
      items.foldlM (fun w x => body.run call self ((item, .value x) :: scope) w) w
    | _ => .error .stuck

namespace Program

variable (p : Program)

/-- The routines of a struct. -/
def struct? (id : Nat) : Option StructRoutines :=
  p.structs.find? (·.id == id)

/-- The routines of a message. -/
def message? (name : String) : Option MessageRoutines :=
  p.messages.find? (·.message.name == name)

/-- Runs the routine that writes a struct. -/
def encodeInto : (depth : Nat) → (id : Nat) → Value → Writer → Except Stop Writer
  | depth + 1, id, .record values, w =>
    match p.struct? id with
    | some r =>
      if r.fields.length = values.length then
        r.encode.foldlM
          (fun w e =>
            e.run (encodeInto depth) (r.fields.zip values) [(bufferVariable, .buffer)] w)
          w
      else .error .stuck
    | none => .error .stuck
  | _, _, _, _ => .error .stuck

/-- Runs the function that encodes a message. -/
def encode (depth : Nat) (message : String) (x : Value) : Except Stop (List UInt8) :=
  match p.message? message with
  | some r =>
    let scope := [(bufferVariable, .buffer), (messageVariable, .value x)]
    (r.encode.run (p.encodeInto depth) [] scope {}).map Writer.data
  | none => .error .stuck

end Program

/-! ## Decoding -/

/-- A computation of a routine that reads from the buffer. -/
abbrev Run := EStateM Stop Reader

namespace Run

/-- An operation of the buffer, whose failure ends the routine. -/
def ofRead {α : Type} (m : Read α) : Run α := fun r =>
  match m r with
  | .ok a r' => .ok a r'
  | .error e r' => .error (.failed e) r'

/-- Something that has to be there. -/
def ofOption {α : Type} : Option α → Run α
  | some a => return a
  | none => throw .stuck

/-- Runs the body of a loop so many times. -/
def iterate {α : Type} (body : α → Run α) : Nat → α → Run α
  | 0, a => return a
  | n + 1, a => do iterate body n (← body a)

end Run

/-- Reads from the buffer. -/
def Scope.read {α : Type} (scope : Scope) (m : Read α) : Run α :=
  if scope.hasBuffer then .ofRead m else throw .stuck

/-- The value of a reading expression; `call` runs the routine of a struct. -/
def ReadExpr.eval (call : Nat → Run Value) (scope : Scope) : ReadExpr → Run Value
  | .bool => return .bool (← scope.read Read.bool)
  | .string => return .text (← scope.read Read.string)
  | .scalar kind => return .scalar (← scope.read (Read.scalar kind))
  | .struct id => if scope.hasBuffer then call id else throw .stuck
  | .scalars kind => return .list ((← scope.read (Read.scalars kind)).map .scalar)

namespace Decode

/-- The value that was obtained, once it is set up. -/
def result (call : Nat → Run Value) (scope : Scope) : Decode → Run Value
  | .read e => e.eval call scope
  | .optional name _ => .ofOption (scope.value? name)
  | .collect name _ _ => .ofOption (scope.value? name)

/-- Runs the statements that bind a value to a name. -/
def prepare (call : Nat → Run Value) : Scope → Decode → Run Scope
  | scope, .read _ => return scope
  | scope, .optional name inner => do
    if ← scope.read Read.presence then
      let inside ← inner.prepare call scope
      let v ← inner.result call inside
      return (name, .value (.present v)) :: scope.leave inside
    else return (name, .value .absent) :: scope
  | scope, .collect name len item => do
    let n ← scope.read Read.length
    let scope : Scope := (len, .count n) :: scope
    -- the capacity of the vector: of no consequence, but its names must be there
    let _ ← Run.ofOption (scope.count? len)
    let _ ← scope.read get
    let scope : Scope := (name, .value (.list [])) :: scope
    let n ← Run.ofOption (scope.count? len)
    Run.iterate (fun scope => do
        let inside ← item.prepare call scope
        let v ← item.result call inside
        let pushed ← Run.ofOption (inside.push name v)
        return scope.leave pushed)
      n scope

/-- Runs the statements that bind a value to the given name. -/
def bind (call : Nat → Run Value) (scope : Scope) (name : String) : Decode → Run Scope
  | .read e => return (name, .value (← e.eval call scope)) :: scope
  | d => d.prepare call scope

end Decode

/-- The value of a field inside a block. -/
def RunField.value? (f : RunField) (bytes : List UInt8) : Option Value :=
  match f.kind with
  | none => bytes[f.offset]?.map fun b => .bool (b != 0)
  | some kind =>
    if f.offset + f.width ≤ bytes.length ∧ f.width = kind.width then
      some (.scalar (Scalar.decode kind ((bytes.drop f.offset).take f.width)))
    else none

/-- Binds a field inside a block. -/
def RunField.bind (block : String) (scope : Scope) (f : RunField) : Run Scope := do
  let bytes ← Run.ofOption (scope.block? block)
  let v ← Run.ofOption (f.value? bytes)
  return (f.name, .value v) :: scope

/-- Runs a step of the routine that decodes a struct. -/
def DecodeStep.exec (call : Nat → Run Value) (scope : Scope) : DecodeStep → Run Scope
  | .value name d => d.bind call scope name
  | .run block size fields => do
    let bytes ← scope.read (Read.bytes size)
    fields.foldlM (RunField.bind block) ((block, .block bytes) :: scope)

namespace Program

variable (p : Program)

/-- Runs the routine that reads a struct. -/
def decodeFrom : (depth : Nat) → (id : Nat) → Run Value
  | 0, _ => throw .stuck
  | depth + 1, id => do
    let r ← Run.ofOption (p.struct? id)
    let scope ← r.decode.foldlM (DecodeStep.exec (decodeFrom depth)) [(bufferVariable, .buffer)]
    return .record (← r.fields.mapM fun name => Run.ofOption (scope.value? name))

/-- Runs the function that decodes a message. -/
def decode (depth : Nat) (message : String) : Run Value := do
  let r ← Run.ofOption (p.message? message)
  let scope ← r.decode.bind (p.decodeFrom depth) [(bufferVariable, .buffer)] messageVariable
  Run.ofOption (scope.value? messageVariable)

end Program

/-! ## The routines of a selection -/

variable {sel : Selection}

theorem struct?_program {id : Nat} (h : id ∈ sel.structs) :
    (program sel).struct? id = some (structRoutines sel id) := by
  have hfind : sel.structs.find? (fun i => (structRoutines sel i).id == id) = some id := by
    cases hfound : sel.structs.find? fun i => (structRoutines sel i).id == id with
    | none => exact absurd (List.find?_eq_none.mp hfound id h) (by simp [structRoutines])
    | some i =>
      have hi : i = id := by simpa [structRoutines] using List.find?_some hfound
      rw [hi]
  rw [Program.struct?, program, List.find?_map]
  exact congrArg (Option.map (structRoutines sel)) hfind

theorem message?_program {m : Message} (h : m ∈ sel.messages)
    (hname : ∀ m' ∈ sel.messages, m'.name = m.name → m' = m) :
    (program sel).message? m.name = some (messageRoutines sel m) := by
  have hfind : sel.messages.find? (fun m' => (messageRoutines sel m').message.name == m.name)
      = some m := by
    cases hfound : sel.messages.find? fun m' => (messageRoutines sel m').message.name == m.name with
    | none => exact absurd (List.find?_eq_none.mp hfound m h) (by simp [messageRoutines])
    | some m' =>
      have hsame : m'.name = m.name := by simpa [messageRoutines] using List.find?_some hfound
      rw [hname m' (List.mem_of_find?_eq_some hfound) hsame]
  rw [Program.message?, program, List.find?_map]
  exact congrArg (Option.map (messageRoutines sel)) hfind

end WireSchema.RustCode
