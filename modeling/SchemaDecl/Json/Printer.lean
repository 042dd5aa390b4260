import SchemaDecl.Json.Basic
import SchemaDecl.Json.Quoted
import SchemaDecl.Number.Notation

/-! JSON text of a value, on one line, with a space after each comma and colon.
A key that is not a string is printed as its scalar in quotes. -/

namespace SchemaDecl

open Number

def Key.print : Key → String
  | .str s => Json.quote s
  | .null => "\"null\""
  | .bool b => if b then "\"true\"" else "\"false\""
  | .int n => "\"" ++ toString n ++ "\""
  | .float x => "\"" ++ jsonStyle.write x ++ "\""

namespace Json

mutual
def print : Json → String
  | .null => "null"
  | .bool b => if b then "true" else "false"
  | .int n => toString n
  | .float x => jsonStyle.write x
  | .str s => quote s
  | .arr items => "[" ++ String.intercalate ", " (printItems items) ++ "]"
  | .obj fields => "\x7b" ++ String.intercalate ", " (printFields fields) ++ "\x7d"

def printItems : List Json → List String
  | [] => []
  | x :: items => print x :: printItems items

def printFields : List (Key × Json) → List String
  | [] => []
  | (k, x) :: fields => (k.print ++ ": " ++ print x) :: printFields fields
end

end Json

end SchemaDecl
