import SchemaDecl.Json.Display
import SchemaDecl.Schema.Walk
import SchemaDecl.Text.Replace

/-! References between types. A title or description that starts with `&` names
another node by a path relative to its own. Slashes and backslashes separate
the parts, runs of them count as one, a leading scheme such as `http:` is
dropped, `.` stays and `..` goes up without leaving the root. The segments of
the node's own path are taken as they are, also when one is called `..`. -/

namespace SchemaDecl.Schema.Reference

def isSeparator (c : Char) : Bool := c = '/' || c = '\\'

def collapseSeparators : Bool → List Char → List Char
  | _, [] => []
  | afterSeparator, c :: rest =>
    if isSeparator c then
      if afterSeparator then collapseSeparators true rest else '/' :: collapseSeparators true rest
    else c :: collapseSeparators false rest

def unixPath (s : String) : String := String.ofList (collapseSeparators false s.toList)

/-- Letters of a scheme, and the four characters whose case variants are such letters. -/
def isSchemeChar (c : Char) : Bool :=
  c.isAlpha || c = 'İ' || c = 'ı' || c = 'ſ' || c = '\u212a'

def dropScheme (cs : List Char) : List Char :=
  match cs.dropWhile isSchemeChar with
  | ':' :: rest => if (cs.takeWhile isSchemeChar).isEmpty then cs else rest
  | _ => cs

def step (segments : List String) (part : List Char) : List String :=
  if part = [] || part = ['.'] then segments
  else if part = ['.', '.'] then segments.dropLast
  else segments ++ [String.ofList part]

def parts (relative : String) : List (List Char) :=
  Text.splitOn '/' (dropScheme (collapseSeparators false relative.toList))

def resolve (path : Path) (relative : String) : List String :=
  (parts relative).foldl step (path.map Json.display)

def ofText? : Json → Option String
  | .str s => match s.toList with
    | '&' :: rest => some (String.ofList rest)
    | _ => none
  | _ => none

/-- The reference of a node: its title decides unless that is missing or null. -/
def ofFields? (fields : Fields) : Option String :=
  match Fields.value fields "title" with
  | .null => ofText? (Fields.value fields "description")
  | title => ofText? title

end SchemaDecl.Schema.Reference
