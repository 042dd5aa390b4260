import SchemaDecl.Json.Basic
import SchemaDecl.Json.Quoted
import SchemaDecl.Number.Notation
import SchemaDecl.Text.Printable

/-! Values as messages and names show them. `display` gives a string as it is
and any other value as `shown` does; inside a container, and in messages that
quote a value, a string is shown in single quotes, or in double quotes if it
holds a single quote and no double one, with unprintable characters escaped by
their code. Null and the truth values are `None`, `True` and `False`. -/

namespace SchemaDecl

open Number Text

namespace Json

def showChar (mark c : Char) : List Char :=
  if c = mark || c = '\\' then ['\\', c]
  else if c = '\n' then ['\\', 'n']
  else if c = '\r' then ['\\', 'r']
  else if c = '\t' then ['\\', 't']
  else if isPrintable c then [c]
  else if c.toNat < 0x100 then '\\' :: 'x' :: hexDigits 2 c.toNat
  else if c.toNat < 0x10000 then '\\' :: 'u' :: hexDigits 4 c.toNat
  else '\\' :: 'U' :: hexDigits 8 c.toNat

def showText (s : String) : String :=
  let cs := s.toList
  let mark := if cs.contains '\'' && !cs.contains '"' then '"' else '\''
  String.ofList (mark :: (cs.flatMap (showChar mark) ++ [mark]))

end Json

namespace Key

def shown : Key → String
  | .str s => Json.showText s
  | .null => "None"
  | .bool b => if b then "True" else "False"
  | .int n => toString n
  | .float x => displayStyle.write x

def display : Key → String
  | .str s => s
  | k => k.shown

end Key

namespace Json

mutual
def shown : Json → String
  | .null => Key.null.shown
  | .bool b => (Key.bool b).shown
  | .int n => (Key.int n).shown
  | .float x => (Key.float x).shown
  | .str s => (Key.str s).shown
  | .arr items => "[" ++ String.intercalate ", " (shownItems items) ++ "]"
  | .obj fields => "\x7b" ++ String.intercalate ", " (shownFields fields) ++ "\x7d"

def shownItems : List Json → List String
  | [] => []
  | x :: items => shown x :: shownItems items

def shownFields : List (Key × Json) → List String
  | [] => []
  | (k, x) :: fields => (k.shown ++ ": " ++ shown x) :: shownFields fields
end

def display : Json → String
  | .str s => s
  | x => shown x

example :
    (arr [.str "it's", .obj [(.str "a", .null), (.int 1, .bool true)], .str "\x7f\"'"]).shown =
      "[\"it's\", \x7b'a': None, 1: True\x7d, '\\x7f\"\\'']" := by decide +kernel

end Json

end SchemaDecl
