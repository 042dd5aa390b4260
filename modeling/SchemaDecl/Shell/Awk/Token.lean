import SchemaDecl.Shell.Awk.Value

/-! Tokens of a script. A slash begins a regular expression unless what stands before
it can be divided. Line ends count, but not after signs that ask for more. -/

namespace SchemaDecl.Shell.Awk

inductive Token
  | number (x : Float) (source : String)
  | text (s : String)
  | regex (source : String)
  | name (s : String)
  /-- A name right before an opening parenthesis. -/
  | function (s : String)
  | builtin (s : String)
  | keyword (s : String)
  | sign (s : String)
  | lineEnd
  | finish
  /-- Something that is no token, with what to say about it. -/
  | fault (message : String)

structure Lexeme where
  token : Token
  line : Nat

namespace Token

def keywords : List String :=
  ["BEGIN", "END", "function", "if", "else", "while", "do", "for", "in", "break", "continue",
    "next", "nextfile", "exit", "return", "delete", "print", "printf", "getline"]

def builtins : List String :=
  ["length", "substr", "index", "split", "sub", "gsub", "match", "sprintf", "sin", "cos", "atan2",
    "exp", "log", "sqrt", "int", "rand", "srand", "system", "close", "fflush", "tolower", "toupper",
    "mktime", "strftime", "systime"]

/-- Signs; of two that fit, the longer one stands first. -/
def signs : List String :=
  ["&&", "||", "++", "--", "+=", "-=", "*=", "/=", "%=", "^=", "==", "<=", ">=", "!=", "!~", ">>",
    "\x7b", "\x7d", "(", ")", "[", "]", ";", ",", "+", "-", "*", "/", "%", "^", "!", "<", ">", "|",
    "?", ":", "~", "$", "="]

/-- Words and signs after which line ends do not count. -/
def asksForMore : Token → Bool
  | .sign s => ["\x7b", "\x7d", "&&", "||", ",", ";"].contains s
  | .keyword s => s = "do" || s = "else"
  | .lineEnd => true
  | _ => false

/-- Whether a slash after a token divides. -/
def canBeDivided : Token → Bool
  | .number .. | .text _ | .name _ | .builtin _ | .regex _ => true
  | .sign s => [")", "]", "$", "++", "--"].contains s
  | _ => false

/-- What a message calls a token. -/
def shown : Token → String
  | .number _ source => source
  | .text s => "\"" ++ s ++ "\""
  | .regex s => "/" ++ s ++ "/"
  | .name s | .function s | .builtin s | .keyword s | .sign s => s
  | .lineEnd | .finish => "end of line"
  | .fault message => message

/-! Texts. -/

/-- The text that an escape stands for, and what follows it. -/
def escapedText : List Char → String × List Char
  | [] => ("\\", [])
  | c :: rest =>
    match c with
    | '"' => ("\"", rest)
    | '\\' => ("\\", rest)
    | 'a' => ("\x07", rest)
    | 'b' => ("\x08", rest)
    | 'f' => ("\x0c", rest)
    | 'n' => ("\n", rest)
    | 'r' => ("\r", rest)
    | 't' => ("\t", rest)
    | 'v' => ("\x0b", rest)
    | '\n' => ("", rest)
    | c =>
      let octal := ((c :: rest).take 3).takeWhile fun d => '0' ≤ d && d ≤ '7'
      let sixteen := if c = 'x' then hexadecimal (rest.take 2) else []
      if !octal.isEmpty then
        (String.singleton (Char.ofNat (Arithmetic.valueIn 8 octal % 256)),
          (c :: rest).drop octal.length)
      else if !sixteen.isEmpty then
        (String.singleton (Char.ofNat (Arithmetic.valueIn 16 sixteen)), rest.drop sixteen.length)
      else (String.ofList ['\\', c], rest)

/-- A text up to its closing quote, and what follows; it has to close before the line ends. -/
def quoted : Nat → String → List Char → Option (String × List Char)
  | 0, _, _ => none
  | fuel + 1, seen, cs => match cs with
    | '"' :: rest => some (seen, rest)
    | '\\' :: rest =>
      let (s, rest) := escapedText rest
      quoted fuel (seen ++ s) rest
    | '\n' :: _ | [] => none
    | c :: rest => quoted fuel (seen.push c) rest

/-- A text with its escapes resolved. -/
def unescaped : Nat → List Char → String
  | 0, _ => ""
  | fuel + 1, cs => match cs with
    | [] => ""
    | '\\' :: rest =>
      let (s, rest) := escapedText rest
      s ++ unescaped fuel rest
    | c :: rest => String.singleton c ++ unescaped fuel rest

/-- The end of brackets in a regular expression, which may hold slashes. -/
def bracketsEnd? : Nat → List Char → Option (List Char)
  | 0, _ => none
  | fuel + 1, cs => match cs with
    | ']' :: rest => some rest
    | '[' :: ':' :: rest =>
      let name := rest.takeWhile Char.isAlpha
      match rest.drop name.length with
      | ':' :: ']' :: rest => bracketsEnd? fuel rest
      | _ => bracketsEnd? fuel rest
    | '\\' :: _ :: rest => bracketsEnd? fuel rest
    | '\n' :: _ | [] => none
    | _ :: rest => bracketsEnd? fuel rest

/-- A regular expression up to its closing slash, as it stands, and what follows. -/
def slashed : Nat → List Char → List Char → Option (String × List Char)
  | 0, _, _ => none
  | fuel + 1, seen, cs => match cs with
    | '/' :: rest => some (String.ofList seen.reverse, rest)
    | '\\' :: c :: rest => if c = '\n' then none else slashed fuel (c :: '\\' :: seen) rest
    | '[' :: rest =>
      let inside := match rest with
        | '^' :: ']' :: after => after
        | ']' :: after | '^' :: after => after
        | after => after
      match bracketsEnd? (inside.length + 1) inside with
      | some after =>
        slashed fuel ((cs.take (cs.length - after.length)).reverse ++ seen) after
      | none => none
    | '\n' :: _ | [] => none
    | c :: rest => slashed fuel (c :: seen) rest

def runaway (what quote : String) (cs : List Char) : Token :=
  .fault ("runaway " ++ what ++ " " ++ quote ++
    String.ofList ((cs.takeWhile (· != '\n')).take 10) ++ " ...")

/-! Tokens one after another. -/

def wordToken (word : String) (rest : List Char) : Token :=
  if keywords.contains word then .keyword word
  else if builtins.contains word then .builtin word
  else if rest.head? = some '(' then .function word
  else .name word

def startsNumber (cs : List Char) : Bool :=
  match cs with
  | '.' :: d :: _ => d.isDigit
  | c :: _ => c.isDigit
  | [] => false

/-- The tokens of a text whose first line has the given number. What stands before decides what a
slash means and whether a line end counts. -/
def read : Nat → Nat → Token → List Char → List Lexeme
  | 0, line, _, _ => [⟨.finish, line⟩]
  | fuel + 1, line, before, cs => match cs with
    | [] =>
      if before.asksForMore then [⟨.finish, line + 1⟩] else [⟨.lineEnd, line⟩, ⟨.finish, line + 1⟩]
    | '\n' :: rest =>
      if before.asksForMore then read fuel (line + 1) before rest
      else ⟨.lineEnd, line⟩ :: read fuel (line + 1) .lineEnd rest
    | '\\' :: '\n' :: rest => read fuel (line + 1) before rest
    | '#' :: rest => read fuel line before (rest.dropWhile (· != '\n'))
    | c :: rest =>
      if c = ' ' || c = '\t' || c = '\r' || c = '\x0c' || c = '\x0b' then read fuel line before rest
      else
        let go := fun (token : Token) (line : Nat) (after : List Char) =>
          ⟨token, line⟩ :: read fuel line token after
        let lines := fun (after : List Char) =>
          line + ((cs.take (cs.length - after.length)).count '\n')
        if c = '"' then match quoted (rest.length + 1) "" rest with
          | some (s, after) => go (.text s) (lines after) after
          | none => [⟨runaway "string constant" "\"" rest, line⟩]
        else if c = '/' && !before.canBeDivided then match slashed (rest.length + 1) [] rest with
          | some (s, after) => go (.regex s) line after
          | none => [⟨runaway "regular expression" "/" rest, line⟩]
        else if startsNumber cs then
          match unsignedNumber.decimal cs with
          | some (x, after) =>
            go (.number x (String.ofList (cs.take (cs.length - after.length)))) line after
          | none => [⟨.fault "unexpected character", line⟩]
        else if isNameStart c then
          let word := cs.takeWhile isNameChar
          let after := cs.drop word.length
          go (wordToken (String.ofList word) after) line after
        else match signs.find? fun s => s.toList.isPrefixOf cs with
          | some s => go (.sign s) line (cs.drop s.length)
          | none => [⟨.fault ("unexpected character '" ++ String.singleton c ++ "'"), line⟩]

def ofScript (s : String) : List Lexeme := read (s.length + 1) 1 .lineEnd s.toList

end Token

end SchemaDecl.Shell.Awk
