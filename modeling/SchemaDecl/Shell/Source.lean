import SchemaDecl.Shell.Bytes
import SchemaDecl.Shell.Command

/-! Reading of scripts, first part: the text that is left, the line it is on, and
tokens. A here document is announced on one line and its text begins after the
end of that line; the announced ones wait until then. A token can be looked at
without being taken. -/

namespace SchemaDecl.Shell

/-- A here document that was announced and whose text was not read yet. -/
structure Awaited where
  id : Nat
  delimiter : String
  expanded : Bool
  dropTabs : Bool

inductive Target
  | file (mode : FileMode)
  | duplicate
  | document (dropTabs : Bool)
  | literal
  | everything (mode : FileMode)

inductive Token
  | endOfText
  | lineEnd
  | semicolon
  | caseEnd
  | background
  | both
  | either
  | pipe
  | opening
  | closing
  | redirect (descriptor : Nat) (target : Target)
  | word (parts : List Part)

structure Source where
  rest : List Char
  line : Nat
  /-- Whether the larger language is read. -/
  extended : Bool
  waiting : List Awaited
  documents : List (Nat × Document)
  /-- How many here documents were announced so far. -/
  announced : Nat
  held : Option Token

structure ReadFault where
  line : Nat
  message : String

abbrev Reader := StateT Source (Except ReadFault)

namespace Reader

def fault (message : String) : Reader α := do throw ⟨(← get).line, message⟩

def syntaxFault (message : String) : Reader α := fault ("Syntax error: " ++ message)

def advance (n : Nat) : Reader Unit :=
  modify fun s =>
    { s with rest := s.rest.drop n, line := s.line + (s.rest.take n).count '\n' }

def rest : Reader (List Char) := return (← get).rest

end Reader

/-- Passes over blanks, joined lines and a comment; also tells how many lines were joined. -/
def skipGap : Bool → List Char → List Char × Nat
  | _, [] => ([], 0)
  | true, c :: rest => if c = '\n' then (c :: rest, 0) else skipGap true rest
  | false, ' ' :: rest | false, '\t' :: rest => skipGap false rest
  | false, '\\' :: '\n' :: rest => let (rest, n) := skipGap false rest; (rest, n + 1)
  | false, c :: rest => if c = '#' then skipGap true rest else (c :: rest, 0)

/-- The lines up to the delimiter, and the text after it. -/
def cutDocument (a : Awaited) : Nat → List Char → List String × List Char
  | 0, cs => ([], cs)
  | _, [] => ([], [])
  | fuel + 1, cs =>
    let line := cs.takeWhile (· != '\n')
    let rest := (cs.dropWhile (· != '\n')).drop 1
    let line := if a.dropTabs then line.dropWhile (· = '\t') else line
    let text := String.ofList line
    if text = a.delimiter then ([], rest)
    else
      let (lines, rest) := cutDocument a fuel rest
      (text :: lines, rest)

def readDocument (s : Source) (a : Awaited) : Source :=
  let (lines, rest) := cutDocument a (s.rest.length + 1) s.rest
  { s with
    rest
    line := s.line + s.rest.count '\n' - rest.count '\n'
    documents := s.documents ++ [(a.id, ⟨unlines lines, a.expanded⟩)] }

def readDocuments (s : Source) : Source :=
  s.waiting.foldl readDocument { s with waiting := [] }

/-- Operators that redirect, without the number before them: their length, the stream they mean
by themselves and what follows them. -/
def redirection? (extended : Bool) : List Char → Option (Nat × Nat × Target)
  | '<' :: '<' :: '-' :: _ => some (3, 0, .document true)
  | '<' :: '<' :: '<' :: _ => some (if extended then (3, 0, .literal) else (2, 0, .document false))
  | '<' :: '<' :: _ => some (2, 0, .document false)
  | '<' :: '&' :: _ => some (2, 0, .duplicate)
  | '<' :: '>' :: _ => some (2, 0, .file .readWrite)
  | '<' :: _ => some (1, 0, .file .read)
  | '>' :: '>' :: _ => some (2, 1, .file .append)
  | '>' :: '&' :: _ => some (2, 1, .duplicate)
  | '>' :: '|' :: _ => some (2, 1, .file .overwrite)
  | '>' :: _ => some (1, 1, .file .write)
  | '&' :: '>' :: '>' :: _ => if extended then some (3, 1, .everything .append) else none
  | '&' :: '>' :: _ => if extended then some (2, 1, .everything .write) else none
  | _ => none

/-- A redirecting operator, with a one-digit number right before it or without. -/
def redirectToken? (extended : Bool) (cs : List Char) : Option (Nat × Token) :=
  match redirection? extended cs with
  | some (n, descriptor, target) => some (n, .redirect descriptor target)
  | none => match cs with
    | d :: c :: rest =>
      if d.isDigit && (c = '<' || c = '>') then
        (redirection? extended (c :: rest)).map fun (n, _, target) =>
          (n + 1, .redirect (d.toNat - 48) target)
      else none
    | _ => none

def operatorToken? : List Char → Option (Nat × Token)
  | '\n' :: _ => some (1, .lineEnd)
  | '&' :: '&' :: _ => some (2, .both)
  | '&' :: _ => some (1, .background)
  | '|' :: '|' :: _ => some (2, .either)
  | '|' :: _ => some (1, .pipe)
  | ';' :: ';' :: _ => some (2, .caseEnd)
  | ';' :: _ => some (1, .semicolon)
  | '(' :: _ => some (1, .opening)
  | ')' :: _ => some (1, .closing)
  | _ => none

def keywords : List String :=
  ["!", "case", "do", "done", "elif", "else", "esac", "fi", "for", "if", "in", "then", "until",
    "while", "\x7b", "\x7d"]

namespace Token

/-- The text of a word that holds nothing but unquoted text. -/
def plain? : Token → Option String
  | .word [.text false s] => some s
  | _ => none

def keyword? (t : Token) : Option String :=
  t.plain?.bind fun s => if keywords.contains s then some s else none

def isKeyword (t : Token) (name : String) : Bool := t.keyword? = some name

def isEnd : Token → Bool
  | .endOfText => true
  | _ => false

/-- Whether a list of commands ends before the token. -/
def endsList : Token → Bool
  | .endOfText | .caseEnd | .closing => true
  | t => ["do", "done", "elif", "else", "esac", "fi", "then", "\x7d"].any t.isKeyword

def inQuotes (s : String) : String := "\"" ++ s ++ "\""

/-- How a message names the token. -/
def shown : Token → String
  | .endOfText => "end of file"
  | .lineEnd => "newline"
  | .semicolon => inQuotes ";"
  | .caseEnd => inQuotes ";;"
  | .background => inQuotes "&"
  | .both => inQuotes "&&"
  | .either => inQuotes "||"
  | .pipe => inQuotes "|"
  | .opening => inQuotes "("
  | .closing => inQuotes ")"
  | .redirect _ _ => "redirection"
  | t => (t.keyword?.map inQuotes).getD "word"

end Token

def unexpected (t : Token) (expected : Option String) : Reader α :=
  Reader.syntaxFault (t.shown ++ " unexpected" ++
    (expected.map fun e => " (expecting " ++ Token.inQuotes e ++ ")").getD "")

end SchemaDecl.Shell
