import SchemaDecl.Name.Identifier

/-! Names in Pascal case from free text such as a request path. Letters and
digits are kept and everything else is dropped; a word starts at a capital and
at any letter that does not follow a letter, and its first letter becomes a
capital. A capital inside a run of capitals is thus a word of its own. -/

namespace SchemaDecl.Name

/-- Pascal case of a text; `afterLetter` says whether a letter stands before it. -/
def pascalChars : Bool → List Char → List Char
  | _, [] => []
  | afterLetter, c :: rest =>
    if c.isAlpha then (if afterLetter then c else c.toUpper) :: pascalChars true rest
    else if c.isDigit then c :: pascalChars false rest
    else pascalChars false rest

def toPascal (s : String) : String := String.ofList (pascalChars false s.toList)

end SchemaDecl.Name
