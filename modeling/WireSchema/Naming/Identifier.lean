import WireSchema.Naming.Case
import WireSchema.Text.Digit

/-!
# Identifiers of generated code

A name of the schema becomes an identifier of the target language by way of its case; one that the
language or the surrounding code has taken already gets an underscore behind it.
-/

namespace WireSchema.Naming

/-- The words Rust keeps for itself. -/
def rustKeywords : List String :=
  ["abstract", "as", "async", "await", "become", "box", "break", "const", "continue", "crate", "do",
    "dyn", "else", "enum", "extern", "false", "final", "fn", "for", "gen", "if", "impl", "in", "let",
    "loop", "macro", "match", "mod", "move", "mut", "override", "priv", "pub", "ref", "return",
    "self", "Self", "static", "struct", "super", "trait", "true", "try", "type", "typeof", "unsafe",
    "unsized", "use", "virtual", "where", "while", "yield"]

/-- The words C++ keeps for itself. -/
def cppKeywords : List String :=
  ["alignas", "alignof", "and", "and_eq", "asm", "auto", "bitand", "bitor", "bool", "break", "case",
    "catch", "char", "class", "compl", "concept", "const", "consteval", "constexpr", "constinit",
    "const_cast", "continue", "co_await", "co_return", "co_yield", "decltype", "default", "delete",
    "do", "double", "dynamic_cast", "else", "enum", "explicit", "export", "extern", "false", "float",
    "for", "friend", "goto", "if", "inline", "int", "long", "mutable", "namespace", "new", "noexcept",
    "not", "not_eq", "nullptr", "operator", "or", "or_eq", "private", "protected", "public",
    "register", "reinterpret_cast", "requires", "return", "short", "signed", "sizeof", "static",
    "static_assert", "static_cast", "struct", "switch", "template", "this", "thread_local", "throw",
    "true", "try", "typedef", "typeid", "typename", "union", "unsigned", "using", "virtual", "void",
    "volatile", "wchar_t", "while", "xor", "xor_eq"]

/-- A name that is not one of the keywords. -/
def escape (keywords : List String) (name : String) : String :=
  if keywords.contains name then name ++ "_" else name

def escapeRust (name : String) : String :=
  escape rustKeywords name

def escapeCpp (name : String) : String :=
  escape cppKeywords name

/-- Variables that generated Rust functions always have. -/
def rustLocals : List String :=
  ["bb", "buffer", "data"]

/-- Stems of the numbered variables in generated Rust functions. -/
def rustTemporaries : List String :=
  ["len", "items", "item", "run", "v"]

/-- A name generated Rust functions use, or may use, for a variable of their own. -/
def isRustLocal (name : String) : Bool :=
  rustLocals.contains name ||
    rustTemporaries.any fun stem =>
      let number := name.toList.drop stem.length
      stem.toList.isPrefixOf name.toList && !number.isEmpty && number.all Text.isDecimalDigit

/-- The Rust identifier of a field. -/
def rustField (name : String) : String :=
  let identifier := escapeRust (snake name)
  if isRustLocal identifier then identifier ++ "_" else identifier

/-- The C++ identifier of a field. -/
def cppField (name : String) : String :=
  escapeCpp (snake name)

/-- The name of a Rust type. -/
def rustType (name : String) : String :=
  escapeRust (pascal name)

/-- The name of a C++ type. -/
def cppType (name : String) : String :=
  escapeCpp (pascal name)

end WireSchema.Naming
