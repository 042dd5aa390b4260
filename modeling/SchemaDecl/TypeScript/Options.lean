/-! Options of the compiler. The defaults put a banner on top, declare the
enums the root refers to, as constant enums, and run the formatter. -/

namespace SchemaDecl.TypeScript

structure Options where
  banner : String :=
    "/* eslint-disable */\n" ++
    "/**\n" ++
    " * This file was automatically generated by json_schema_to_ts.\n" ++
    " * DO NOT MODIFY IT BY HAND.\n" ++
    " */"
  declareReferenced : Bool := true
  constEnums : Bool := true
  strictIndexSignatures : Bool := false
  format : Bool := true
  indent : String := "  "
  deriving DecidableEq

/-- Options for a declaration that stands on its own. -/
def Options.plain : Options where
  banner := ""
  format := false

end SchemaDecl.TypeScript
