/-! Blank characters and the trimming of text. `blanks` is the white space of
Unicode together with the four separators U+001C to U+001F; the zero-width
characters U+200B and U+FEFF are not blank. Trimming works on character lists
and removes blanks at the ends only, so a trimmed list neither starts nor ends
with one and a second trim changes nothing. -/

namespace SchemaDecl.Text

def blanks : List Nat :=
  [0x9, 0xa, 0xb, 0xc, 0xd, 0x1c, 0x1d, 0x1e, 0x1f, 0x20, 0x85, 0xa0, 0x1680, 0x2000, 0x2001,
   0x2002, 0x2003, 0x2004, 0x2005, 0x2006, 0x2007, 0x2008, 0x2009, 0x200a, 0x2028, 0x2029, 0x202f,
   0x205f, 0x3000]

def isBlank (c : Char) : Bool := blanks.contains c.toNat

def trimStart (cs : List Char) : List Char := cs.dropWhile isBlank

def trimEnd (cs : List Char) : List Char := (cs.reverse.dropWhile isBlank).reverse

def trim (cs : List Char) : List Char := trimEnd (trimStart cs)

def strip (s : String) : String := String.ofList (trim s.toList)

def stripEnd (s : String) : String := String.ofList (trimEnd s.toList)

def isAllBlank (s : String) : Bool := s.toList.all isBlank

theorem toList_strip (s : String) : (strip s).toList = trim s.toList := String.toList_ofList

theorem toList_stripEnd (s : String) : (stripEnd s).toList = trimEnd s.toList :=
  String.toList_ofList

end SchemaDecl.Text
