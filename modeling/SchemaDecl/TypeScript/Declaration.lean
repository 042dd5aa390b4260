import SchemaDecl.TypeScript.Options

/-! Declarations and the files they stand in. A declaration keeps its parts,
so that what a file declares can be asked without reading its text. -/

namespace SchemaDecl.TypeScript

structure EnumDeclaration where
  name : String
  /-- Printed name and printed value of each member. -/
  members : List (String × String)
  deriving DecidableEq

inductive RootDeclaration
  | interface (name : String) (comment : Option String) (body : String)
  | alias (name : String) (comment : Option String) (type : String)
  deriving DecidableEq

def commentAbove : Option String → String
  | none => ""
  | some comment => comment ++ "\n"

def RootDeclaration.name : RootDeclaration → String
  | .interface name .. | .alias name .. => name

def RootDeclaration.text : RootDeclaration → String
  | .interface name comment body =>
    commentAbove comment ++ "export interface " ++ name ++ " " ++ body
  | .alias name comment type =>
    commentAbove comment ++ "export type " ++ name ++ " = " ++ type ++ ";"

/-- Members stand one a line, with a comma after all but the last. -/
def memberLines (indent : String) : List (String × String) → String
  | [] => ""
  | [(name, value)] => indent ++ name ++ " = " ++ value ++ "\n"
  | (name, value) :: rest => indent ++ name ++ " = " ++ value ++ ",\n" ++ memberLines indent rest

def EnumDeclaration.text (options : Options) (e : EnumDeclaration) : String :=
  "export " ++ (if options.constEnums then "const " else "") ++ "enum " ++ e.name ++ " \x7b\n" ++
    memberLines options.indent e.members ++ "\x7d"

structure SourceFile where
  root : RootDeclaration
  enums : List EnumDeclaration
  deriving DecidableEq

/-- Names of the declarations in the order in which they stand in the file. -/
def SourceFile.names (file : SourceFile) : List String :=
  file.root.name :: file.enums.map EnumDeclaration.name

def SourceFile.declarations (options : Options) (file : SourceFile) : List String :=
  file.root.text :: file.enums.map (EnumDeclaration.text options)

def bannerText (banner : String) : String := if banner.isEmpty then "" else banner ++ "\n\n"

/-- Each declaration ends its line and an empty line stands between two of them. -/
def SourceFile.text (options : Options) (file : SourceFile) : String :=
  bannerText options.banner ++
    String.intercalate "\n" ((file.declarations options).map (· ++ "\n"))

end SchemaDecl.TypeScript
