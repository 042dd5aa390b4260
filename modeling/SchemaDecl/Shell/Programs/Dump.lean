import SchemaDecl.Shell.Format
import SchemaDecl.Shell.Programs.Options

/-! Programs that show bytes as text: `od` as rows of numbers, `base64` as letters. -/

namespace SchemaDecl.Shell

/-! Rows of numbers. -/

/-- How the units of a row are written: their size in bytes and their letter. -/
structure DumpUnit where
  letter : Char
  size : Nat

namespace Dump

def unitOf? (s : String) : Option DumpUnit :=
  match s.toList with
  | ['c'] => some ⟨'c', 1⟩
  | ['a'] => some ⟨'a', 1⟩
  | letter :: digits =>
    if ['x', 'o', 'u', 'd'].contains letter then
      let digits := digits.takeWhile Char.isDigit
      if digits.isEmpty then some ⟨letter, 4⟩
      else if [1, 2, 4, 8].contains (natOf digits) then some ⟨letter, natOf digits⟩
      else none
    else none
  | [] => none

def controlNames : List String :=
  ["nul", "soh", "stx", "etx", "eot", "enq", "ack", "bel", "bs", "ht", "nl", "vt", "ff", "cr",
    "so", "si", "dle", "dc1", "dc2", "dc3", "dc4", "nak", "syn", "etb", "can", "em", "sub", "esc",
    "fs", "gs", "rs", "us", "sp"]

def digitsIn (base width : Nat) (n : Nat) : String :=
  let digits := String.ofList (Nat.toDigits base n)
  repeated (width - digits.length) '0' ++ digits

def charText (c : Char) : String :=
  match c with
  | '\x00' => "\\0"
  | '\x07' => "\\a"
  | '\x08' => "\\b"
  | '\x0c' => "\\f"
  | '\n' => "\\n"
  | '\r' => "\\r"
  | '\t' => "\\t"
  | '\x0b' => "\\v"
  | c => if 32 ≤ c.toNat && c.toNat < 127 then String.singleton c else digitsIn 8 3 c.toNat

def nameText (c : Char) : String :=
  let n := c.toNat % 128
  if n = 127 then "del" else controlNames.getD n (String.singleton (Char.ofNat n))

/-- Width of the widest number of so many bytes. -/
def widthOf (u : DumpUnit) : Nat :=
  match u.letter with
  | 'c' | 'a' => 3
  | 'x' => 2 * u.size
  | 'o' => (8 * u.size + 2) / 3
  | 'u' => (toString (Number.twoTo (8 * u.size) - 1)).length
  | _ => (toString (Number.twoTo (8 * u.size - 1))).length + 1

def unitText (u : DumpUnit) (cs : List Char) : String :=
  let n := cs.reverse.foldl (fun n c => 256 * n + c.toNat) 0
  match u.letter with
  | 'c' => charText (cs.headD ' ')
  | 'a' => nameText (cs.headD ' ')
  | 'x' => digitsIn 16 (widthOf u) n
  | 'o' => digitsIn 8 (widthOf u) n
  | 'u' => toString n
  | _ =>
    let half := Number.twoTo (8 * u.size - 1)
    toString (if half ≤ n then (n : Int) - 2 * half else n)

def chunks (n : Nat) : Nat → List Char → List (List Char)
  | 0, _ => []
  | _, [] => []
  | fuel + 1, cs => cs.take n :: chunks n fuel (cs.drop n)

/-- The numbers of a row; as many of them as make up a block share the columns of the block. -/
def rowOf (block columns : Nat) (u : DumpUnit) (row : List Char) : String :=
  let number := block / u.size
  let spare := columns - number * (widthOf u + 1)
  String.join ((chunks u.size row.length row).zipIdx.map fun (unit, i) =>
    let before := spare * (number - i % number) / number
    let after := spare * (number - i % number - 1) / number
    pad (widthOf u + 1 + before - after) false (unitText u unit))

/-- Bytes that the numbers of every format fill up. -/
def blockSize (units : List DumpUnit) : Nat := (units.map DumpUnit.size).foldl max 1

/-- Columns that a block takes up in the widest format. -/
def blockColumns (units : List DumpUnit) : Nat :=
  (units.map fun u => (widthOf u + 1) * (blockSize units / u.size)).foldl max 0

def addressText (radix : Char) (n : Nat) : String :=
  match radix with
  | 'n' => ""
  | 'd' => digitsIn 10 7 n
  | 'x' => digitsIn 16 6 n
  | _ => digitsIn 8 7 n

/-- The rows; a row like the one before it is left out and a star stands for all of them. -/
def rows (radix : Char) (units : List DumpUnit) (all : Bool) (start : Nat) :
    Nat → Option (List Char) → Bool → List (List Char) → List String
  | offset, _, _, [] =>
    if radix = 'n' then [] else [addressText radix (start + offset)]
  | offset, previous, starred, row :: rest =>
    if !all && previous = some row && !rest.isEmpty then
      (if starred then [] else ["*"]) ++
        rows radix units all start (offset + row.length) previous true rest
    else
      let address := addressText radix (start + offset)
      let texts := units.zipIdx.map fun (u, i) =>
        (if i = 0 then address else repeated address.length ' ') ++
          rowOf (blockSize units) (blockColumns units) u row
      texts ++ rows radix units all start (offset + row.length) (some row) false rest

end Dump

def od : Program :=
  withOptions ⟨"cbxovda", "AtjNw", [("address-radix", 'A'), ("format", 't'),
    ("skip-bytes", 'j'), ("read-bytes", 'N'), ("width", 'w')]⟩ 1 fun name o => do
  let (found, failed) ← inputs name plainReport o.words
  let skip := ((o.value? 'j').bind natural?).getD 0
  let cs := (String.join (found.map Input.text)).toList.drop skip
  let cs := match (o.value? 'N').bind natural? with
    | some n => cs.take n
    | none => cs
  let units := o.given.filterMap fun g => match g.1 with
    | 't' => Dump.unitOf? g.2
    | 'c' => some ⟨'c', 1⟩
    | 'a' => some ⟨'a', 1⟩
    | 'b' => some ⟨'o', 1⟩
    | 'x' => some ⟨'x', 2⟩
    | 'o' => some ⟨'o', 2⟩
    | 'd' => some ⟨'u', 2⟩
    | _ => none
  let units := if units.isEmpty then [⟨'o', 2⟩] else units
  let width := max 1 (((o.value? 'w').bind natural?).getD 16)
  let radix := ((o.value? 'A').getD "o").toList.headD 'o'
  if failed && found.isEmpty then return 1
  out (unlines (Dump.rows radix units (o.has 'v') skip 0 none false
    (Dump.chunks width cs.length cs)))
  return statusOf failed

/-! Letters. -/

namespace Base64

def alphabet : List Char :=
  "ABCDEFGHIJKLMNOPQRSTUVWXYZabcdefghijklmnopqrstuvwxyz0123456789+/".toList

def letter (n : Nat) : Char := alphabet.getD n '='

/-- Three bytes become four letters; missing bytes become equals signs. -/
def encodeBytes : List Char → List Char
  | a :: b :: c :: rest =>
    let n := 65536 * a.toNat + 256 * b.toNat + c.toNat
    letter (n / 262144) :: letter (n / 4096 % 64) :: letter (n / 64 % 64) :: letter (n % 64) ::
      encodeBytes rest
  | [a, b] =>
    let n := 1024 * a.toNat + 4 * b.toNat
    [letter (n / 4096), letter (n / 64 % 64), letter (n % 64), '=']
  | [a] => let n := 16 * a.toNat; [letter (n / 64), letter (n % 64), '=', '=']
  | [] => []

/-- The bytes that letters stand for, and whether all of the text made sense. -/
def decodeLetters : List Char → List Char × Bool
  | a :: b :: c :: d :: rest =>
    match alphabet.idxOf? a, alphabet.idxOf? b, alphabet.idxOf? c, alphabet.idxOf? d with
    | some i, some j, some k, some l =>
      let n := 262144 * i + 4096 * j + 64 * k + l
      let (cs, ok) := decodeLetters rest
      (Char.ofNat (n / 65536) :: Char.ofNat (n / 256 % 256) :: Char.ofNat (n % 256) :: cs, ok)
    | some i, some j, some k, none =>
      let n := 1024 * i + 16 * j + k / 4
      ([Char.ofNat (n / 256), Char.ofNat (n % 256)], d = '=' && rest.isEmpty)
    | some i, some j, none, none =>
      ([Char.ofNat (4 * i + j / 16)], c = '=' && d = '=' && rest.isEmpty)
    | _, _, _, _ => ([], false)
  | [] => ([], true)
  | cs => match cs.map alphabet.idxOf? with
    | [some i, some j, some k] =>
      let n := 1024 * i + 16 * j + k / 4
      ([Char.ofNat (n / 256), Char.ofNat (n % 256)], false)
    | some i :: some j :: _ => ([Char.ofNat (4 * i + j / 16)], false)
    | _ => ([], false)

end Base64

def base64 : Program :=
  withOptions ⟨"di", "w", [("decode", 'd'), ("ignore-garbage", 'i'), ("wrap", 'w')]⟩ 1
    fun name o => do
  match o.words[1]? with
  | some extra => refuse name ("extra operand " ++ curlyName extra) 1
  | none =>
    let (found, failed) ← inputs name plainReport o.words
    if failed then return 1
    let text := String.join (found.map Input.text)
    if o.has 'd' then
      let kept := text.toList.filter fun c =>
        c != '\n' && !(o.has 'i' && c != '=' && !Base64.alphabet.contains c)
      let (cs, ok) := Base64.decodeLetters kept
      out (String.ofList cs)
      if ok then return 0
      tell name "invalid input"
      return 1
    else
      let cs := Base64.encodeBytes text.toList
      let width := ((o.value? 'w').bind natural?).getD 76
      if width = 0 then out (String.ofList cs)
      else out (unlines ((Dump.chunks width cs.length cs).map String.ofList))
      return 0

end SchemaDecl.Shell
