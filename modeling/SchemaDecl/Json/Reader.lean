import SchemaDecl.Json.Fields
import SchemaDecl.Text.Replace

/-! JSON text to values. Every step works on the text that is left and answers
with the text after it; a failure keeps the text at which it was noticed, so
its position is the length of the whole less the length of that rest. Blanks
are the four of JSON. The last value of a repeated name wins and keeps the
first place. No two steps in a row leave the text as it is, so the number of steps
that `document` allows is never used up. -/

namespace SchemaDecl.Json

open Number

inductive Fault
  | value
  | name
  | colon
  | comma
  | unterminated
  | control
  | escape
  | codePoint
  | extra
  | byteOrderMark
  /-- An integer has more digits than are read. -/
  | digits (count : Nat)
  deriving DecidableEq

def mostDigits : Nat := 4300

def Fault.message : Fault → String
  | .value => "Expecting value"
  | .name => "Expecting property name enclosed in double quotes"
  | .colon => "Expecting ':' delimiter"
  | .comma => "Expecting ',' delimiter"
  | .unterminated => "Unterminated string starting at"
  | .control => "Invalid control character at"
  | .escape => "Invalid \\escape"
  | .codePoint => "Invalid \\uXXXX escape"
  | .extra => "Extra data"
  | .byteOrderMark => "Unexpected UTF-8 BOM (decode using utf-8-sig)"
  | .digits count =>
    "Exceeds the limit (" ++ toString mostDigits ++ " digits) for integer string conversion: " ++
      "value has " ++ toString count ++
      " digits; use sys.set_int_max_str_digits() to increase the limit"

/-- Whether the text is at fault, and not the size of a number in it. -/
def Fault.isMalformed : Fault → Bool
  | .digits _ => false
  | _ => true

structure ReadError where
  fault : Fault
  line : Nat
  column : Nat
  offset : Nat
  deriving DecidableEq

def ReadError.message (e : ReadError) : String :=
  if e.fault.isMalformed then
    e.fault.message ++ ": line " ++ toString e.line ++ " column " ++ toString e.column ++
      " (char " ++ toString e.offset ++ ")"
  else e.fault.message

namespace Reader

/-- What was found wrong and the text from there on. -/
structure Stop where
  fault : Fault
  rest : List Char

def isBlank (c : Char) : Bool := c = ' ' || c = '\t' || c = '\n' || c = '\r'

def skip (cs : List Char) : List Char := cs.dropWhile isBlank

def hexValue? (c : Char) : Option Nat :=
  if '0' ≤ c && c ≤ '9' then some (c.toNat - 48)
  else if 'a' ≤ c && c ≤ 'f' then some (c.toNat - 87)
  else if 'A' ≤ c && c ≤ 'F' then some (c.toNat - 55)
  else none

def hexFour? : List Char → Option Nat
  | [a, b, c, d] => do
    let digits := [← hexValue? a, ← hexValue? b, ← hexValue? c, ← hexValue? d]
    return digits.foldl (fun n digit => 16 * n + digit) 0
  | _ => none

def isHighSurrogate (n : Nat) : Bool := 0xd800 ≤ n && n < 0xdc00

def isLowSurrogate (n : Nat) : Bool := 0xdc00 ≤ n && n < 0xe000

/-- A surrogate that stands alone is read as the replacement character. -/
def toChar (n : Nat) : Char := if h : n.isValidChar then Char.ofNatAux n h else '\ufffd'

/-- The character of a `\u` escape from its digits on: `start` begins at the `u`. A second escape
is looked at only after a high surrogate, and taken only if it is a low one. -/
def codePoint (start : List Char) : Except Stop (Char × List Char) :=
  let digits := start.drop 1
  let rest := digits.drop 4
  match hexFour? (digits.take 4) with
  | none => .error ⟨.codePoint, start⟩
  | some n =>
    if rest.isEmpty then .error ⟨.codePoint, start⟩
    else if isHighSurrogate n && 6 < rest.length && ['\\', 'u'].isPrefixOf rest then
      match hexFour? ((rest.drop 2).take 4) with
      | none => .error ⟨.codePoint, rest.drop 1⟩
      | some m =>
        if isLowSurrogate m then
          .ok (toChar (0x10000 + (n - 0xd800) * 0x400 + (m - 0xdc00)), rest.drop 6)
        else .ok (toChar n, rest)
    else .ok (toChar n, rest)

def plainEscape? : Char → Option Char
  | '"' => some '"'
  | '\\' => some '\\'
  | '/' => some '/'
  | 'b' => some '\x08'
  | 'f' => some '\x0c'
  | 'n' => some '\n'
  | 'r' => some '\r'
  | 't' => some '\t'
  | _ => none

/-- The rest of a string after its opening quote; `start` is the text at that quote. -/
def stringBody (start : List Char) :
    Nat → List Char → List Char → Except Stop (String × List Char)
  | 0, _, _ => .error ⟨.unterminated, start⟩
  | _, _, [] => .error ⟨.unterminated, start⟩
  | fuel + 1, acc, c :: rest =>
    if c = '"' then .ok (String.ofList acc.reverse, rest)
    else if c = '\\' then
      match rest with
      | [] => .error ⟨.unterminated, start⟩
      | 'u' :: _ => do
        let (x, rest) ← codePoint rest
        stringBody start fuel (x :: acc) rest
      | e :: rest' => match plainEscape? e with
        | some x => stringBody start fuel (x :: acc) rest'
        | none => .error ⟨.escape, c :: rest⟩
    else if c.toNat < 32 then .error ⟨.control, c :: rest⟩
    else stringBody start fuel (c :: acc) rest

def string (start : List Char) : Except Stop (String × List Char) :=
  stringBody start (start.length + 1) [] (start.drop 1)

def digits (cs : List Char) : List Char × List Char := cs.span Char.isDigit

def natOf (cs : List Char) : Nat := cs.foldl (fun n c => 10 * n + (c.toNat - 48)) 0

def fraction (cs : List Char) : List Char × List Char :=
  match cs with
  | '.' :: rest => let (ds, rest) := digits rest; if ds.isEmpty then ([], cs) else (ds, rest)
  | _ => ([], cs)

def exponent? (cs : List Char) : Option Int × List Char :=
  match cs with
  | e :: rest =>
    if e = 'e' || e = 'E' then
      let (negative, rest) := match rest with
        | '-' :: rest => (true, rest)
        | '+' :: rest => (false, rest)
        | rest => (false, rest)
      let (ds, rest) := digits rest
      if ds.isEmpty then (none, cs)
      else (some (if negative then -(natOf ds : Int) else natOf ds), rest)
    else (none, cs)
  | [] => (none, cs)

def number (start : List Char) : Except Stop (Json × List Char) :=
  let (negative, cs) := match start with
    | '-' :: rest => (true, rest)
    | rest => (false, rest)
  let (whole, rest) := match cs with
    | '0' :: rest => (['0'], rest)
    | cs => digits cs
  if whole.isEmpty then .error ⟨.value, start⟩
  else
    let (part, rest) := fraction rest
    let (exponent, rest) := exponent? rest
    if part.isEmpty && exponent.isNone then
      if mostDigits < whole.length then .error ⟨.digits whole.length, start⟩
      else
        let n : Int := natOf whole
        .ok (.int (if negative then -n else n), rest)
    else
      let scale := exponent.getD 0 - part.length
      .ok (.float (.ofDecimal negative (natOf (whole ++ part)) scale), rest)

def words : List (List Char × Json) :=
  [("null".toList, .null), ("true".toList, .bool true), ("false".toList, .bool false),
    ("NaN".toList, .float .nan), ("Infinity".toList, .float (.infinity false)),
    ("-Infinity".toList, .float (.infinity true))]

def scalar (start : List Char) : Except Stop (Json × List Char) :=
  match words.find? fun w => w.1.isPrefixOf start with
  | some (word, value) => .ok (value, start.drop word.length)
  | none => number start

mutual
def value : Nat → List Char → Except Stop (Json × List Char)
  | 0, cs => .error ⟨.value, cs⟩
  | fuel + 1, cs => match cs with
    | [] => .error ⟨.value, cs⟩
    | '"' :: _ => do
      let (s, rest) ← string cs
      .ok (.str s, rest)
    | '[' :: rest => match skip rest with
      | ']' :: rest => .ok (.arr [], rest)
      | rest => items fuel [] rest
    | '\x7b' :: rest => match skip rest with
      | '\x7d' :: rest => .ok (.obj [], rest)
      | rest => members fuel [] rest
    | _ => scalar cs

def items : Nat → List Json → List Char → Except Stop (Json × List Char)
  | 0, _, cs => .error ⟨.value, cs⟩
  | fuel + 1, acc, cs => do
    let (x, rest) ← value fuel cs
    match skip rest with
    | ']' :: rest => .ok (.arr (x :: acc).reverse, rest)
    | ',' :: rest => items fuel (x :: acc) (skip rest)
    | rest => .error ⟨.comma, rest⟩

def members : Nat → Fields → List Char → Except Stop (Json × List Char)
  | 0, _, cs => .error ⟨.name, cs⟩
  | fuel + 1, acc, cs => match cs with
    | '"' :: _ => do
      let (name, rest) ← string cs
      match skip rest with
      | ':' :: rest =>
        let (x, rest) ← value fuel (skip rest)
        let acc := Fields.set acc name x
        match skip rest with
        | '\x7d' :: rest => .ok (.obj acc, rest)
        | ',' :: rest => members fuel acc (skip rest)
        | rest => .error ⟨.comma, rest⟩
      | rest => .error ⟨.colon, rest⟩
    | cs => .error ⟨.name, cs⟩
end

def document (cs : List Char) : Except Stop Json :=
  if cs.head? = some '\ufeff' then .error ⟨.byteOrderMark, cs⟩
  else do
    let (x, rest) ← value (2 * cs.length + 2) (skip cs)
    match skip rest with
    | [] => .ok x
    | rest => .error ⟨.extra, rest⟩

/-- Lines end at line feeds only, and columns count from one. -/
def Stop.locate (whole : List Char) (stop : Stop) : ReadError :=
  let offset := whole.length - stop.rest.length
  let before := whole.take offset
  let line := before.count '\n' + 1
  let column := (before.reverse.takeWhile (· != '\n')).length + 1
  ⟨stop.fault, line, column, offset⟩

end Reader

def read (text : String) : Except ReadError Json :=
  (Reader.document text.toList).mapError (Reader.Stop.locate text.toList)

example : (read "\x7b\"a\":1, \"b\" : [], \"a\":-0.5e1\x7d").toOption =
    some (.obj [("a", .float (.ofDecimal true 5 0)), ("b", .arr [])]) := by decide +kernel

end SchemaDecl.Json
