import SchemaDecl.Shell.Characters

/-! Words shown so that a shell reads them back. A word stands as it is if no shell
would see anything special in it; otherwise it stands between quotes, and what
cannot be shown stands as an escape between quotes of its own. -/

namespace SchemaDecl.Shell

def isSpecialInside (c : Char) : Bool :=
  "!\"$&()*;<=>[^\x60|?\\".toList.contains c

/-- Whether a word needs quotes. -/
def needsQuotes (colons : Bool) (cs : List Char) : Bool :=
  match cs with
  | [] => true
  | ['\x7b'] | ['\x7d'] | '#' :: _ | '~' :: _ => true
  | cs => cs.any fun c =>
    isSpecialInside c || c = ' ' || c = '\'' || !Text.isPrintable c || isStray c ||
      (colons && c = ':')

def isShown (c : Char) : Bool := Text.isPrintable c && !isStray c

def escapedBytes (c : Char) : String :=
  match c with
  | '\x07' => "\\a"
  | '\x08' => "\\b"
  | '\t' => "\\t"
  | '\n' => "\\n"
  | '\x0b' => "\\v"
  | '\x0c' => "\\f"
  | '\r' => "\\r"
  | c => String.join ((ofCharacters [c]).toList.map fun b =>
      "\\" ++ threeDigits (Nat.toDigits 8 b.toNat))
where
  threeDigits (digits : List Char) : String :=
    String.ofList (List.replicate (3 - digits.length) '0' ++ digits)

/-- The inside of single quotes. Escapes stand outside of them, between `$'` and `'`. -/
def quotedInside (escaping : Bool) : List Char → String
  | [] => ""
  | '\'' :: rest => "'\\''" ++ quotedInside false rest
  | c :: rest =>
    if isShown c then
      (if escaping then "''" else "") ++ ofCharacters [c] ++ quotedInside false rest
    else (if escaping then "" else "'$'") ++ escapedBytes c ++ quotedInside true rest

/-- The characters between quotes. A word with quotes in it that ends in an escape is taken to
begin in one. -/
def quotedWord (cs : List Char) : String :=
  if cs.contains '\'' && cs.all fun c => isShown c && !isSpecialInside c then
    "\"" ++ ofCharacters cs ++ "\""
  else
    let escaping := cs.contains '\'' && cs.getLast?.any fun c => !isShown c
    "'" ++ quotedInside escaping cs ++ "'"

/-- A word between quotes. -/
def shellName (word : String) : String := quotedWord (characters word)

/-- A word between quotes if it needs them; a colon may be a reason. -/
def shellNameIfNeeded (colons : Bool) (word : String) : String :=
  let cs := characters word
  if needsQuotes colons cs then quotedWord cs else word

end SchemaDecl.Shell
