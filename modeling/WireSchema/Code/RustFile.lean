import WireSchema.Code.RustText
import WireSchema.Text.Lines

/-!
# Rust files

A generated Rust file is one module: plain structs with the routines that put them on the wire, and a
pair of functions for each message.
-/

namespace WireSchema.RustCode

open WireSchema.Naming (rustField rustType escapeRust snake)

/-- One step of indentation. -/
def indentation : String := "    "

/-- The Rust type of a struct. -/
def structType (sel : Selection) (id : Nat) : String :=
  rustType (sel.schema.structName id)

/-- The lines that declare a field. -/
def fieldSteps (sel : Selection) (f : Field) : List CodeStep :=
  let name := rustField f.name
  let rename : List CodeStep :=
    if sel.options.serde && f.key != name then [.line s!"#[serde(rename = \"{f.key}\")]"] else []
  rename ++ [.line s!"pub {name}: {typeText (structType sel) f.ty},"]

/-- The lines in front of the fields of a struct. -/
def structHead (sel : Selection) (id : Nat) : List CodeStep :=
  let attributes : List CodeStep :=
    if sel.options.serde then
      [.line "#[skip_serializing_none]",
        .line "#[derive(Debug, Clone, PartialEq, Default, Serialize, Deserialize)]"]
    else [.line "#[derive(Debug, Clone, PartialEq, Default)]"]
  attributes ++ [.enter s!"pub struct {structType sel id} \x7b"]

/-- The lines that declare a struct. -/
def structDeclaration (sel : Selection) (id : Nat) : List CodeStep :=
  structHead sel id
    ++ (sel.schema.fieldsOf id).flatMap (fieldSteps sel)
    ++ [.leave "\x7d", .blank]

/-- The methods of a struct that is a message under its own name. -/
def messageMethods (m : Message) : List CodeStep :=
  let suffix := snake m.name
  [.blank,
    .enter "pub fn encode(&self) -> Result<Vec<u8>, WireError> \x7b",
    .line s!"encode_{suffix}(self)",
    .leave "\x7d",
    .blank,
    .enter "pub fn decode(data: &[u8]) -> Result<Self, WireError> \x7b",
    .line s!"decode_{suffix}(data)",
    .leave "\x7d"]

/-- The lines of the routines of a struct. -/
def structMethods (sel : Selection) (r : StructRoutines) : List CodeStep :=
  let layout := sel.analysis.structLayout r.id
  let constant : List CodeStep :=
    if layout.isFixed then
      [.line "/// Encoded size in bytes.",
        .line s!"pub const ENCODED_SIZE: usize = {layout.fixedSize};", .blank]
    else []
  let size :=
    match r.size with
    | none => "Self::ENCODED_SIZE"
    | some terms => sizeText terms
  let names := ", ".intercalate r.fields
  [.line "#[allow(dead_code)]", .enter s!"impl {structType sel r.id} \x7b"]
    ++ constant
    ++ [.enter "pub(crate) fn encoded_len(&self) -> usize \x7b", .line size, .leave "\x7d", .blank]
    ++ [.enter
      "pub(crate) fn encode_into(&self, bb: &mut ByteBufferMut) -> Result<(), WireError> \x7b"]
    ++ r.encode.flatMap Encode.steps
    ++ [.line "Ok(())", .leave "\x7d", .blank]
    ++ [.enter "pub(crate) fn decode_from(bb: &mut ByteBuffer<'_>) -> Result<Self, WireError> \x7b"]
    ++ r.decode.flatMap (DecodeStep.steps (structType sel))
    ++ [.line s!"Ok(Self \x7b {names} \x7d)", .leave "\x7d"]
    ++ (match sel.ownMessage? r.id with
      | some m => messageMethods m
      | none => [])
    ++ [.leave "\x7d", .blank]

/-- The lines of the functions of a message. -/
def messageSteps (sel : Selection) (r : MessageRoutines) : List CodeStep :=
  let m := r.message
  let suffix := snake m.name
  let type := rustType m.name
  let synonym : List CodeStep :=
    if sel.isNamedStruct m then []
    else [.line s!"pub type {type} = {typeText (structType sel) m.ty};", .blank]
  synonym
    ++ [.line s!"/// Encodes a `{m.name}` message.",
      .enter s!"pub fn encode_{suffix}(value: &{type}) -> Result<Vec<u8>, WireError> \x7b",
      .line s!"let mut buffer = ByteBufferMut::with_capacity({r.capacity.text});",
      .line "let bb = &mut buffer;"]
    ++ r.encode.steps
    ++ [.line "Ok(buffer.data())", .leave "\x7d", .blank]
    ++ [.line s!"/// Decodes a `{m.name}` message.",
      .enter s!"pub fn decode_{suffix}(data: &[u8]) -> Result<{type}, WireError> \x7b",
      .line "let mut buffer = ByteBuffer::new(data);",
      .line "let bb = &mut buffer;"]
    ++ r.decode.letSteps (structType sel) messageVariable
    ++ [.line s!"Ok({messageVariable})", .leave "\x7d", .blank]

/-- The lines inside the module. -/
def body (sel : Selection) (p : Program) : List CodeStep :=
  p.structs.flatMap (fun r => structDeclaration sel r.id ++ structMethods sel r)
    ++ p.messages.flatMap (messageSteps sel)

/-- The name of the file for a package. -/
def fileName (package : String) : String :=
  snake package ++ ".rs"

/-- The lines in front of those inside the module. -/
def moduleHead (sel : Selection) (p : Program) : List CodeStep :=
  let scalar := if p.structs.any fun r => r.decode.any DecodeStep.usesScalar then ["Scalar"] else []
  let imports := ", ".intercalate (["ByteBuffer", "ByteBufferMut"] ++ scalar ++ ["WireError"])
  let serde : List CodeStep :=
    if sel.options.serde && !p.structs.isEmpty then
      [.line "use serde::\x7bDeserialize, Serialize\x7d;",
        .line "use serde_with::skip_serializing_none;"]
    else []
  [.line s!"// Code generated by ffire from package {sel.package}. DO NOT EDIT.", .blank,
    .enter s!"pub mod {escapeRust (snake sel.package)} \x7b",
    .line s!"use {sel.options.runtimeCrate}::\x7b{imports}\x7d;"]
    ++ serde
    ++ [.blank]

/-- The text of the file. The module's lines are indented once more, whatever line breaks the names
in them contain. -/
def source (sel : Selection) : String :=
  let p := program sel
  renderCode indentation <|
    moduleHead sel p
      ++ (Text.lines (renderCode indentation (body sel p))).map .line
      ++ [.leave "\x7d"]

end WireSchema.RustCode
