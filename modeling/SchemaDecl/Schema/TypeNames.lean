import SchemaDecl.Json.Fields
import SchemaDecl.Text.LowerCase

/-! Names of types. Exported schemas use the type names of several programming
languages; a table from lower-case names to canonical ones brings them together.
A custom table is laid over the built-in one with its names lowered, so of two
spellings of one name the later entry wins. A name that is in no table stands
for itself in lower case, and a type that is no string is left alone. -/

namespace SchemaDecl.Schema.TypeNames

def builtin : Fields :=
  [("byte", .str "integer"), ("short", .str "integer"), ("int", .str "integer"),
    ("long", .str "integer"), ("float", .str "number"), ("double", .str "number"),
    ("bigdecimal", .str "number"), ("char", .str "string"), ("void", .str "null")]

def lowerKey : Key → Key
  | .str s => .str (Text.lower s)
  | key => key

def table (custom : Fields) : Fields :=
  Fields.update builtin (Fields.ofList (custom.map fun entry => (lowerKey entry.1, entry.2)))

/-- A custom table may be missing or empty in any form; otherwise it has to be an object. -/
def tableOf? (custom : Json) : Option Fields :=
  if custom.truthy then
    match custom with
    | .obj entries => some (table entries)
    | _ => none
  else some builtin

def canonical (table : Fields) : Json → Json
  | .str name =>
    let name := Text.lower name
    (Fields.get? table name).getD (.str name)
  | other => other

end SchemaDecl.Schema.TypeNames
