import WireSchema.Code.CppRoutine
import WireSchema.Code.Writer

/-!
# C++ text

The spelling of routines in C++. Values are written to an encoder `e` and read from a decoder `d`.
-/

namespace WireSchema

/-- The C++ name of a numeric type. -/
def Numeric.cppName : Numeric → String
  | .int8 => "std::int8_t"
  | .int16 => "std::int16_t"
  | .int32 => "std::int32_t"
  | .int64 => "std::int64_t"
  | .float32 => "float"
  | .float64 => "double"

/-- The C++ name of a primitive. -/
def Primitive.cppName : Primitive → String
  | .bool => "bool"
  | .string => "std::string"
  | .number kind => kind.cppName

namespace CppCode

/-- The text of a place. -/
def Place.text : Place → String
  | .named name => name
  | .member base field => s!"{base}.{field}"
  | .deref p => s!"(*{p.text})"
  | .back p => s!"{p.text}.back()"

/-- The C++ type of values that may be absent. -/
def optionalText (optional : Bool) (base : String) : String :=
  if optional then s!"std::optional<{base}>" else base

/-- The C++ type of values of a type. -/
def typeText (structType : Nat → String) : Ty → String
  | .primitive p o => optionalText o p.cppName
  | .struct id o => optionalText o (structType id)
  | .array e o => optionalText o s!"std::vector<{typeText structType e}>"

/-- The lines of an encoding statement. -/
def Encode.steps : Encode → List CodeStep
  | .bool p => [.line s!"e.write_bool({p.text});"]
  | .string p => [.line s!"e.write_string({p.text});"]
  | .scalar kind p => [.line s!"e.write_scalar<{kind.cppName}>({p.text});"]
  | .struct _ p => [.line s!"detail::encode(e, {p.text});"]
  | .bulk _ p => [.line s!"e.write_bulk({p.text});"]
  | .optional p body =>
    [.enter s!"if ({p.text}) \x7b", .line "e.write_bool(true);"]
      ++ body.steps
      ++ [.dedent, .line "\x7d else \x7b", .indent, .line "e.write_bool(false);", .leave "\x7d"]
  | .each p item body =>
    [.line s!"e.write_len({p.text}.size());", .enter s!"for (const auto& {item} : {p.text}) \x7b"]
      ++ body.steps
      ++ [.leave "\x7d"]

/-- The lines of a decoding statement. -/
def Decode.steps : Decode → List CodeStep
  | .bool p => [.line s!"{p.text} = d.read_bool();"]
  | .string p => [.line s!"{p.text} = d.read_string();"]
  | .scalar kind p => [.line s!"{p.text} = d.read_scalar<{kind.cppName}>();"]
  | .struct _ p => [.line s!"detail::decode(d, {p.text});"]
  | .bulk kind p => [.line s!"{p.text} = d.read_bulk<{kind.cppName}>();"]
  | .optional p body =>
    [.enter "if (d.read_bool()) \x7b", .line s!"{p.text}.emplace();"]
      ++ body.steps
      ++ [.dedent, .line "\x7d else \x7b", .indent, .line s!"{p.text}.reset();", .leave "\x7d"]
  | .each p len i body =>
    [.enter "\x7b",
      .line s!"std::size_t {len} = d.read_len();",
      .line s!"{p.text}.clear();",
      .line s!"{p.text}.reserve(std::min({len}, d.remaining()));",
      .enter s!"for (std::size_t {i} = 0; {i} < {len}; ++{i}) \x7b",
      .line s!"{p.text}.emplace_back();"]
      ++ body.steps
      ++ [.leave "\x7d", .leave "\x7d"]

/-- The text of a size. -/
def SizeExpr.text : SizeExpr → String
  | .literal n => toString n
  | .string p => s!"(2 + {p.text}.size())"
  | .struct _ p => s!"detail::size_of({p.text})"
  | .fixedItems p n => s!"(2 + {p.text}.size() * {n})"
  | .optional p inner => s!"({p.text} ? 1 + {inner.text} : 1)"
  | .items p item n body =>
    s!"[&] \x7b std::size_t {n} = 2; for (const auto& {item} : {p.text}) \x7b {n} += {body.text}; "
      ++ s!"\x7d return {n}; \x7d()"

/-- The text of the size of a struct. -/
def sizeText (terms : List SizeExpr) : String :=
  " + ".intercalate (terms.map SizeExpr.text)

end CppCode

end WireSchema
