import WireSchema.Code.CppRuntime
import WireSchema.Code.CppText

/-!
# C++ files

A generated C++ file is one header with a namespace of its own: plain structs, the routines that put
them on the wire, and functions for each message.
-/

namespace WireSchema.CppCode

open WireSchema.Naming (cppField cppType escapeCpp snake)

/-- One step of indentation. -/
def indentation : String := "    "

/-- The C++ type of a struct. -/
def structType (sel : Selection) (id : Nat) : String :=
  cppType (sel.schema.structName id)

/-- The name that guards the header against being included twice. -/
def guardName (package : String) : String :=
  s!"FFIRE_{(snake package).map Char.toUpper}_HPP"

/-- The namespace of a package. -/
def namespaceName (package : String) : String :=
  escapeCpp (snake package)

/-- The standard headers a header needs. -/
def includes : List String :=
  ["algorithm", "cstddef", "cstdint", "cstring", "optional", "stdexcept", "string", "vector"]

/-- The lines in front of everything. -/
def header (package : String) : List CodeStep :=
  [.line s!"// Code generated by ffire from package {package}. DO NOT EDIT.",
    .line s!"#ifndef {guardName package}",
    .line s!"#define {guardName package}",
    .blank]
    ++ includes.map (fun name => .line s!"#include <{name}>")
    ++ [.blank,
      .line ("static_assert(sizeof(float) == 4 && sizeof(double) == 8, "
        ++ "\"ffire needs IEEE-754 floats\");"),
      .blank,
      .line s!"namespace {namespaceName package} \x7b",
      .blank]
    ++ runtime.map .line
    ++ [.blank]

/-- The lines behind everything. -/
def footer (package : String) : List CodeStep :=
  [.line s!"\x7d  // namespace {namespaceName package}",
    .blank,
    .line s!"#endif  // {guardName package}"]

/-- The lines that declare a struct. -/
def structDeclaration (sel : Selection) (id : Nat) : List CodeStep :=
  let layout := sel.analysis.structLayout id
  let constant : List CodeStep :=
    if layout.isFixed then
      [.line s!"static constexpr std::size_t encoded_size = {layout.fixedSize};", .blank]
    else []
  let fields := (sel.schema.fieldsOf id).map fun f =>
    CodeStep.line s!"{typeText (structType sel) f.ty} {cppField f.name}\x7b\x7d;"
  [.enter s!"struct {structType sel id} \x7b"]
    ++ constant
    ++ fields
    ++ [.leave "\x7d;", .blank]

/-- The lines of the routines of a struct. -/
def structSteps (sel : Selection) (r : StructRoutines) : List CodeStep :=
  let type := structType sel r.id
  let size :=
    match r.size with
    | none => s!"{type}::encoded_size"
    | some terms => sizeText terms
  [.enter s!"inline std::size_t size_of(const {type}& {inputVariable}) \x7b",
    .line s!"return {size};", .leave "\x7d", .blank]
    ++ [.enter s!"inline void encode(Encoder& e, const {type}& {inputVariable}) \x7b"]
    ++ r.encode.flatMap Encode.steps
    ++ [.leave "\x7d", .blank]
    ++ [.enter s!"inline void decode(Decoder& d, {type}& {outputVariable}) \x7b"]
    ++ r.decode.flatMap Decode.steps
    ++ [.leave "\x7d", .blank]

/-- The lines of the functions of a message. -/
def messageSteps (sel : Selection) (r : MessageRoutines) : List CodeStep :=
  let m := r.message
  let suffix := snake m.name
  let type := cppType m.name
  let synonym : List CodeStep :=
    if sel.isNamedStruct m then []
    else [.line s!"using {type} = {typeText (structType sel) m.ty};", .blank]
  synonym
    ++ [.enter s!"inline std::vector<std::uint8_t> encode_{suffix}(const {type}& value) \x7b",
      .line s!"detail::Encoder e({r.capacity.text});"]
    ++ r.encode.steps
    ++ [.line "return e.finish();", .leave "\x7d", .blank]
    ++ [.enter s!"inline {type} decode_{suffix}(const std::uint8_t* data, std::size_t size) \x7b",
      .line "detail::Decoder d(data, size);",
      .line s!"{type} value\x7b\x7d;"]
    ++ r.decode.steps
    ++ [.line "return value;", .leave "\x7d", .blank]
    ++ [.enter s!"inline {type} decode_{suffix}(const std::vector<std::uint8_t>& data) \x7b",
      .line s!"return decode_{suffix}(data.data(), data.size());", .leave "\x7d", .blank]

/-- The name of the file for a package. -/
def fileName (package : String) : String :=
  snake package ++ ".hpp"

/-- The text of the file. -/
def source (sel : Selection) : String :=
  let p := program sel
  renderCode indentation <|
    header sel.package
      ++ p.structs.flatMap (fun r => structDeclaration sel r.id)
      ++ [.line "namespace detail \x7b", .blank]
      ++ p.structs.flatMap (structSteps sel)
      ++ [.line "\x7d  // namespace detail", .blank]
      ++ p.messages.flatMap (messageSteps sel)
      ++ footer sel.package

end WireSchema.CppCode
