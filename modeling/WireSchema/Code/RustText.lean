import WireSchema.Code.RustRoutine
import WireSchema.Code.Writer

/-!
# Rust text

The spelling of routines in Rust. Values are written to and read from a buffer `bb`.
-/

namespace WireSchema

/-- The Rust name of a numeric type. -/
def Numeric.rustName : Numeric → String
  | .int8 => "i8"
  | .int16 => "i16"
  | .int32 => "i32"
  | .int64 => "i64"
  | .float32 => "f32"
  | .float64 => "f64"

/-- The Rust name of a primitive. -/
def Primitive.rustName : Primitive → String
  | .bool => "bool"
  | .string => "String"
  | .number kind => kind.rustName

namespace RustCode

namespace Place

/-- The receiver of a method call. -/
def text : Place → String
  | .field name => s!"self.{name}"
  | .ref name => name

/-- The value itself, for types that are copied. -/
def value : Place → String
  | .field name => s!"self.{name}"
  | .ref name => s!"*{name}"

/-- A reference to the value. -/
def borrow : Place → String
  | .field name => s!"&self.{name}"
  | .ref name => name

end Place

/-- The Rust type of values that may be absent. -/
def optionalText (optional : Bool) (base : String) : String :=
  if optional then s!"Option<{base}>" else base

/-- The Rust type of values of a type. -/
def typeText (structType : Nat → String) : Ty → String
  | .primitive p o => optionalText o p.rustName
  | .struct id o => optionalText o (structType id)
  | .array e o => optionalText o s!"Vec<{typeText structType e}>"

/-- The lines of an encoding statement. -/
def Encode.steps : Encode → List CodeStep
  | .bool p => [.line s!"bb.write_bool({p.value});"]
  | .string p => [.line s!"bb.write_string({p.borrow})?;"]
  | .scalar kind p => [.line s!"bb.write_{kind.rustName}({p.value});"]
  | .struct _ p => [.line s!"{p.text}.encode_into(bb)?;"]
  | .slice _ p => [.line s!"bb.write_scalar_slice({p.text}.as_slice())?;"]
  | .optional p v body =>
    [.enter s!"match {p.borrow} \x7b", .enter s!"Some({v}) => \x7b",
      .line "bb.write_presence(true);"]
      ++ body.steps
      ++ [.leave "\x7d", .line "None => bb.write_presence(false),", .leave "\x7d"]
  | .each p item body =>
    [.line s!"bb.write_array_len({p.text}.len())?;", .enter s!"for {item} in {p.text}.iter() \x7b"]
      ++ body.steps
      ++ [.leave "\x7d"]

/-- The text of a reading expression. -/
def ReadExpr.text (structType : Nat → String) : ReadExpr → String
  | .bool => "bb.read_bool()?"
  | .string => "bb.read_string()?"
  | .scalar kind => s!"bb.read_{kind.rustName}()?"
  | .struct id => s!"{structType id}::decode_from(bb)?"
  | .scalars kind => s!"bb.read_scalar_vec::<{kind.rustName}>()?"

namespace Decode

/-- The expression for a value once it is set up. -/
def expr (structType : Nat → String) : Decode → String
  | .read e => e.text structType
  | .optional name _ => name
  | .collect name _ _ => name

/-- The lines that bind a value to a name, if it takes any. -/
def setup (structType : Nat → String) : Decode → List CodeStep
  | .read _ => []
  | .optional name inner =>
    [.enter s!"let {name} = if bb.read_presence()? \x7b"]
      ++ inner.setup structType
      ++ [.line s!"Some({inner.expr structType})", .dedent, .line "\x7d else \x7b", .indent,
        .line "None", .leave "\x7d;"]
  | .collect name len item =>
    [.line s!"let {len} = bb.read_len()?;",
      .line s!"let mut {name} = Vec::with_capacity({len}.min(bb.remaining()));",
      .enter s!"for _ in 0..{len} \x7b"]
      ++ item.setup structType
      ++ [.line s!"{name}.push({item.expr structType});", .leave "\x7d"]

/-- The lines that bind a value to the given name. -/
def letSteps (structType : Nat → String) (name : String) : Decode → List CodeStep
  | .read e => [.line s!"let {name} = {e.text structType};"]
  | d => d.setup structType

end Decode

/-- The line that binds a field inside a block of bytes. -/
def RunField.line (block : String) (f : RunField) : String :=
  match f.kind with
  | none => s!"let {f.name} = {block}[{f.offset}] != 0;"
  | some kind =>
    s!"let {f.name} = {kind.rustName}::read_le(&{block}[{f.offset}..{f.offset + f.width}]);"

/-- The lines of a step that decodes fields. -/
def DecodeStep.steps (structType : Nat → String) : DecodeStep → List CodeStep
  | .value name d => d.letSteps structType name
  | .run block size fields =>
    .line s!"let {block} = bb.read_bytes({size})?;" :: fields.map fun f => .line (f.line block)

/-- The text of a size. -/
def SizeExpr.text : SizeExpr → String
  | .literal n => toString n
  | .length p => s!"{p.text}.len()"
  | .encodedLen _ p => s!"{p.text}.encoded_len()"
  | .add a b => s!"{a.text} + {b.text}"
  | .mul a b => s!"{a.text} * {b.text}"
  | .ifSome p yes no => s!"if {p.text}.is_some() \x7b {yes.text} \x7d else \x7b {no.text} \x7d"
  | .mapOr p v body => s!"{p.text}.as_ref().map_or(0, |{v}| {body.text})"
  | .sumOver p v body => s!"{p.text}.iter().map(|{v}| {body.text}).sum::<usize>()"
  | .paren e => s!"({e.text})"

/-- The text of the size of a struct. -/
def sizeText (terms : List SizeExpr) : String :=
  " + ".intercalate (terms.map SizeExpr.text)

end RustCode

end WireSchema
