import SchemaDecl.Text.Blank
import SchemaDecl.Text.Lines
import SchemaDecl.Text.Replace

/-! Doc comments. A description that is not blank becomes a block with one line
for each of its own, indented like the member below it and without blanks at
the end. Every `*/` in it is written `*\/`, so that the block ends at its last
line. -/

namespace SchemaDecl.TypeScript

def commentLine (indent line : String) : String := Text.stripEnd (indent ++ " * " ++ line)

def commentLines (indent text : String) : List String :=
  (Text.linesOf (Text.replaceAll "*/" "*\\/" text)).map (commentLine indent)

def comment? (indent text : String) : Option String :=
  if Text.isAllBlank text then none
  else some <| Text.joinLines <|
    (indent ++ "/**") :: (commentLines indent text ++ [indent ++ " */"])

end SchemaDecl.TypeScript
