import SchemaDecl.Text.Replace

/-! Locations in a file tree: the segments on the way from the root. Empty
segments and single dots of a written path mean nothing and are dropped; double
dots are kept until a file tree, or `collapse`, says where they lead. Only a path
that begins with exactly two slashes keeps an empty first segment. -/

namespace SchemaDecl.Files

abbrev Location := List String

namespace Location

def segmentsOf (path : String) : List String :=
  ((Text.splitOn '/' path.toList).map String.ofList).filter fun s => s != "" && s != "."

def isAbsolute (path : String) : Bool := path.toList.head? == some '/'

def hasTwoSlashes (path : String) : Bool :=
  match path.toList with
  | '/' :: '/' :: c :: _ => c != '/'
  | ['/', '/'] => true
  | _ => false

/-- A written path as seen from a directory. -/
def within (directory : Location) (path : String) : Location :=
  if hasTwoSlashes path then "" :: segmentsOf path
  else if isAbsolute path then segmentsOf path
  else directory ++ segmentsOf path

/-- Whether every segment can be a name, which may not hold the null character. -/
def isPossible (l : Location) : Bool := l.all fun segment => !segment.toList.contains '\x00'

def text (l : Location) : String := "/" ++ String.intercalate "/" l

def name (l : Location) : String := l.getLastD ""

def parent (l : Location) : Location := l.dropLast

/-- Takes every double dot together with the segment before it, and empty segments away. -/
def collapse (l : Location) : Location :=
  l.foldl (fun done segment =>
    if segment = ".." then done.dropLast
    else if segment.isEmpty then done
    else done ++ [segment]) []

/-- The part of a name before its last dot, unless that dot starts or ends it. -/
def stem (name : String) : String :=
  let (extension, rest) := name.toList.reverse.span (· != '.')
  match rest with
  | _ :: before =>
    if extension.isEmpty || before.isEmpty then name else String.ofList before.reverse
  | [] => name

end Location

end SchemaDecl.Files
