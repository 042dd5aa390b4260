/-! String literals of JSON text. Quotes, backslashes and the characters below
U+0020 are written as escapes, the shortest there is; everything else, ASCII or
not, stands for itself. -/

namespace SchemaDecl.Json

def hexDigit (n : Nat) : Char := (Nat.digitChar (n % 16))

def hexDigits : Nat → Nat → List Char
  | 0, _ => []
  | width + 1, n => hexDigits width (n / 16) ++ [hexDigit n]

def escape (c : Char) : List Char :=
  if c = '"' then ['\\', '"']
  else if c = '\\' then ['\\', '\\']
  else if c = '\n' then ['\\', 'n']
  else if c = '\r' then ['\\', 'r']
  else if c = '\t' then ['\\', 't']
  else if c.toNat = 8 then ['\\', 'b']
  else if c.toNat = 12 then ['\\', 'f']
  else if c.toNat < 32 then '\\' :: 'u' :: hexDigits 4 c.toNat
  else [c]

def quoteChars (cs : List Char) : List Char := '"' :: (cs.flatMap escape ++ ['"'])

def quote (s : String) : String := String.ofList (quoteChars s.toList)

theorem toList_quote (s : String) : (quote s).toList = quoteChars s.toList := String.toList_ofList

example : quote "\x01\"é" = "\"\\u0001\\\"é\"" := by decide +kernel

end SchemaDecl.Json
