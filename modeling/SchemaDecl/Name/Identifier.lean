/-! Identifiers of the declaration language, in ASCII: a letter, `_` or `$`,
then letters, digits, `_` and `$`. `toIdentifier` makes one from any text.
Characters that may not stand in an identifier only separate words, every word
gets a capital first letter and is otherwise kept, and a result that is empty or
starts with a digit gets a leading underscore. -/

namespace SchemaDecl.Name

def isNameChar (c : Char) : Bool := c.isAlphanum || c = '_' || c = '$'

def isNameStart (c : Char) : Bool := c.isAlpha || c = '_' || c = '$'

def isIdentifier : List Char → Bool
  | [] => false
  | c :: rest => isNameStart c && rest.all isNameChar

/-- Name characters of the text; `inWord` says whether the one before was a name character. -/
def capitalizeWords : Bool → List Char → List Char
  | _, [] => []
  | inWord, c :: rest =>
    if isNameChar c then (if inWord then c else c.toUpper) :: capitalizeWords true rest
    else capitalizeWords false rest

def guardStart : List Char → List Char
  | [] => ['_']
  | c :: rest => if c.isDigit then '_' :: c :: rest else c :: rest

def identifierChars (cs : List Char) : List Char := guardStart (capitalizeWords false cs)

def toIdentifier (s : String) : String := String.ofList (identifierChars s.toList)

theorem toList_toIdentifier (s : String) :
    (toIdentifier s).toList = identifierChars s.toList := String.toList_ofList

theorem isNameChar_of_isNameStart {c : Char} (h : isNameStart c = true) : isNameChar c = true := by
  simp only [isNameStart, isNameChar, Char.isAlphanum, Bool.or_eq_true] at *
  grind

end SchemaDecl.Name
