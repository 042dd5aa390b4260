import SchemaDecl.Json.Quoted
import SchemaDecl.Name.Identifier

/-! Names of members. A name that is an identifier is printed bare, also when a
line feed follows the identifier; any other is printed as a string literal. -/

namespace SchemaDecl.TypeScript

def isBareName (cs : List Char) : Bool :=
  Name.isIdentifier cs || (cs.getLast? == some '\n' && Name.isIdentifier cs.dropLast)

def memberName (name : String) : String :=
  if isBareName name.toList then name else Json.quote name

end SchemaDecl.TypeScript
