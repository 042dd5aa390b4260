/-! Text of the shell. The shell works on bytes, and a byte stands as the
character with its code, so that ASCII text stands for itself. `encode` and
`decode` lead from Unicode text to such text and back; what is no Unicode text
is left alone. -/

namespace SchemaDecl.Shell

def ofBytes (bytes : ByteArray) : String :=
  String.ofList (bytes.toList.map fun b => Char.ofNat b.toNat)

def toBytes (s : String) : ByteArray :=
  ⟨(s.toList.map fun c => UInt8.ofNat c.toNat).toArray⟩

def encode (s : String) : String := ofBytes s.toUTF8

def decode (s : String) : String := (String.fromUTF8? (toBytes s)).getD s

def isSpace (c : Char) : Bool := c = ' ' || (9 ≤ c.toNat && c.toNat ≤ 13)

def isNameStart (c : Char) : Bool := c.isAlpha || c = '_'

def isNameChar (c : Char) : Bool := c.isAlphanum || c = '_'

def isName (s : String) : Bool :=
  match s.toList with
  | [] => false
  | c :: rest => isNameStart c && rest.all isNameChar

def natOf (digits : List Char) : Nat := digits.foldl (fun n c => 10 * n + (c.toNat - 48)) 0

/-- A decimal integer with an optional sign and blanks around it. -/
def integer? (s : String) : Option Int :=
  let cs := (s.toList.dropWhile isSpace).reverse.dropWhile isSpace |>.reverse
  let (negative, digits) := match cs with
    | '-' :: rest => (true, rest)
    | '+' :: rest => (false, rest)
    | rest => (false, rest)
  if digits.isEmpty || !digits.all Char.isDigit then none
  else some (if negative then -(natOf digits : Int) else natOf digits)

/-- A number that has to be there and may have no sign. -/
def natural? (s : String) : Option Nat :=
  match integer? s with
  | some (.ofNat n) => some n
  | _ => none

/-- The lines of a text without their ends; a text that ends a line has no further one. -/
def linesOf (s : String) : List String :=
  let lines := s.splitOn "\n"
  if lines.getLast? = some "" then lines.dropLast else lines

def unlines (lines : List String) : String := String.join (lines.map (· ++ "\n"))

def repeated (n : Nat) (c : Char) : String := String.ofList (List.replicate n c)

/-- Pads to a width with blanks, on the left unless the text is to stand on the left. -/
def pad (width : Nat) (toLeft : Bool) (s : String) : String :=
  let blanks := repeated (width - s.length) ' '
  if toLeft then s ++ blanks else blanks ++ s

def sortedTexts (xs : List String) : List String := xs.mergeSort (· ≤ ·)

end SchemaDecl.Shell
