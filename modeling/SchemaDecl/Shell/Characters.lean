import SchemaDecl.Shell.Pattern
import SchemaDecl.Text.LowerCase
import SchemaDecl.Text.Printable

/-! Characters for programs that work on Unicode text. A byte that is part of no
character stands as a character of its own beyond the assigned ones, so that
reading characters and writing them again leaves every text as it was. -/

namespace SchemaDecl.Shell

/-- Where the characters begin that stand for single bytes. -/
def strayBase : Nat := 0x10ff00

def strayByte (byte : Char) : Char := Char.ofNat (strayBase + byte.toNat)

def isStray (c : Char) : Bool := strayBase ≤ c.toNat

/-- How many bytes a character has that begins with the given one. -/
def lengthFrom (first : Char) : Nat :=
  let n := first.toNat
  if n < 0x80 then 1 else if n < 0xc2 then 0 else if n < 0xe0 then 2 else if n < 0xf0 then 3
  else if n < 0xf5 then 4 else 0

/-- The character that a text of bytes begins with, and how many bytes it has. -/
def firstCharacter (cs : List Char) : Char × Nat :=
  match cs with
  | [] => (' ', 0)
  | c :: _ =>
    let n := lengthFrom c
    match (String.fromUTF8? (toBytes (String.ofList (cs.take n)))).map String.toList with
    | some [d] => (d, n)
    | _ => (strayByte c, 1)

def charactersOf : Nat → List Char → List Char
  | 0, _ => []
  | _, [] => []
  | fuel + 1, c :: rest =>
    if c.toNat < 0x80 then c :: charactersOf fuel rest
    else
      let (d, n) := firstCharacter (c :: rest)
      d :: charactersOf fuel ((c :: rest).drop n)

/-- The characters of a text of bytes. -/
def characters (s : String) : List Char := charactersOf s.length s.toList

/-- The bytes of characters. -/
def ofCharacters (cs : List Char) : String :=
  String.join (cs.map fun c =>
    if c.toNat < 0x80 then String.singleton c
    else if isStray c then String.singleton (Char.ofNat (c.toNat - strayBase))
    else encode (String.singleton c))

def lowerCase (c : Char) : Char :=
  match Text.lowerChar c with
  | [d] => d
  | _ => c

def upperCase (c : Char) : Char :=
  if c.toNat < 0x80 then c.toUpper
  else
    let n := (c.toNat : Int)
    let run := Text.lowerRuns.find? fun r =>
      (r.first : Int) + r.offset ≤ n && n ≤ r.last + r.offset &&
        (n - r.offset - r.first) % r.step == 0
    match run with
    | some r => Char.ofNat (n - r.offset).toNat
    | none => c

/-- Runs of characters beyond ASCII that are letters or digits. -/
def letterRuns : List (Nat × Nat) :=
  [(0xaa, 0xaa), (0xb5, 0xb5), (0xba, 0xba), (0xc0, 0xd6), (0xd8, 0xf6), (0xf8, 0x2c1),
    (0x2c6, 0x2d1), (0x2e0, 0x2e4), (0x345, 0x345), (0x370, 0x373), (0x376, 0x37d),
    (0x37f, 0x37f), (0x386, 0x386), (0x388, 0x481), (0x48a, 0x556), (0x561, 0x587),
    (0x5d0, 0x5ea), (0x620, 0x669), (0x66e, 0x6d3), (0x904, 0x939), (0x966, 0x96f),
    (0xe01, 0xe30), (0xe40, 0xe46), (0xe50, 0xe59), (0x10a0, 0x10fa), (0x1100, 0x11ff),
    (0x1e00, 0x1fbc), (0x2071, 0x2071), (0x207f, 0x207f), (0x2102, 0x2102), (0x2126, 0x212b),
    (0x2160, 0x2188), (0x3005, 0x3007), (0x3041, 0x3096), (0x30a1, 0x30fa), (0x30fc, 0x30ff),
    (0x3105, 0x318e), (0x31a0, 0x31ba), (0x3400, 0x4dbf), (0x4e00, 0x9fff), (0xa000, 0xa48c),
    (0xac00, 0xd7a3), (0xf900, 0xfad9), (0xff10, 0xff19), (0xff21, 0xff3a), (0xff41, 0xff5a),
    (0xff66, 0xffdc), (0x10400, 0x1044f), (0x1d400, 0x1d7ff), (0x20000, 0x3134a)]

def isLetter (c : Char) : Bool :=
  if c.toNat < 0x80 then c.isAlphanum else Text.inRanges letterRuns c

def isWordChar (c : Char) : Bool := c = '_' || isLetter c

/-- Runs of characters beyond ASCII that separate words. -/
def spaceRuns : List (Nat × Nat) :=
  [(0x1680, 0x1680), (0x2000, 0x2006), (0x2008, 0x200a), (0x2028, 0x2029), (0x205f, 0x205f),
    (0x3000, 0x3000)]

/-- Whether a character belongs to a class such as `alpha`. -/
def isOfClass (c : Char) (name : String) : Bool :=
  if c.toNat < 0x80 then isInClass c name
  else if isStray c then false
  else
    let shown := Text.isPrintable c
    let space := Text.inRanges spaceRuns c
    match name with
    | "alpha" | "alnum" => isLetter c
    | "upper" => lowerCase c != c
    | "lower" => upperCase c != c
    | "space" => space
    | "blank" => space && !Text.inRanges [(0x2028, 0x2029)] c
    | "punct" => shown && !isLetter c && !space
    | "print" => shown || space
    | "graph" => shown && !space
    | _ => false

end SchemaDecl.Shell
