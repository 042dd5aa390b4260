import SchemaDecl.Shell.Format
import SchemaDecl.Shell.Regex

/-! Scripts of the stream editor. A script is a list of commands, each with up to
two addresses that say for which lines it is meant. A block is written as a
command that begins it and one that ends it. -/

namespace SchemaDecl.Shell.Sed

/-- An expression with what it takes as equal and whether it looks at single lines. -/
structure Search where
  regex : Regex
  ignoreCase : Bool
  linewise : Bool

/-- Without an expression the last one that was used is meant. -/
inductive Address
  | line (n : Nat)
  | last
  | step (first step : Nat)
  | search (s : Option Search)

inductive RangeEnd
  | address (a : Address)
  | more (n : Nat)
  | multiple (n : Nat)

inductive Piece
  | char (c : Char)
  | group (index : Nat)
  | case (letter : Char)

structure Substitution where
  search : Option Search
  replacement : List Piece
  everywhere : Bool
  number : Option Nat
  prints : Bool
  file : Option String

inductive Action
  | substitute (s : Substitution)
  | transliterate (pairs : List (Char × Char))
  | text (letter : Char) (text : List Char)
  | branch (letter : Char) (label : List Char)
  | label (name : List Char)
  | file (letter : Char) (path : String)
  | quit (silent : Bool) (status : Nat)
  | list (width : Option Nat)
  | block
  | blockEnd
  | plain (letter : Char)

structure Command where
  first : Option Address
  last : Option RangeEnd
  negated : Bool
  action : Action

/-- What is wrong, and what was not read yet, if that matters. -/
structure Fault where
  message : String
  left : Option (List Char)

abbrev Reading := Except Fault

def fault (message : String) (left : List Char) : Reading α := .error ⟨message, some left⟩

def skipBlanks (cs : List Char) : List Char := cs.dropWhile fun c => isSpace c && c != '\n'

def readNumber (cs : List Char) : Nat × List Char :=
  let digits := cs.takeWhile Char.isDigit
  (natOf digits, cs.drop digits.length)

/-! Escapes. -/

/-- The number of an escape: its base, its longest length, and its digits. -/
def numberEscape? (cs : List Char) : Option (Char × List Char) :=
  let read := fun (base length : Nat) (rest : List Char) =>
    let digits := (rest.take length).takeWhile fun c => Arithmetic.digitValue c < base
    if digits.isEmpty then none
    else some (Char.ofNat (Arithmetic.valueIn base digits % 256), rest.drop digits.length)
  match cs with
  | 'd' :: rest => read 10 3 rest
  | 'o' :: rest => read 8 3 rest
  | 'x' :: rest => read 16 2 rest
  | _ => none

/-- The character of an escape, which begins after the backslash, and what follows it. -/
def escape? (cs : List Char) : Option (Char × List Char) :=
  match cs with
  | 'a' :: rest => some ('\x07', rest)
  | 'f' :: rest => some ('\x0c', rest)
  | 'n' :: rest => some ('\n', rest)
  | 'r' :: rest => some ('\r', rest)
  | 't' :: rest => some ('\t', rest)
  | 'v' :: rest => some ('\x0b', rest)
  | 'c' :: '\\' :: '\\' :: rest => some ('\x1c', rest)
  | 'c' :: c :: rest =>
    if c.toNat < 128 && c != '\\' then some (Char.ofNat (c.toUpper.toNat ^^^ 64), rest) else none
  | cs => numberEscape? cs

/-- An expression with its escapes resolved; others stay for the expression. -/
def resolvedRegex : Nat → List Char → List Char
  | 0, _ => []
  | _, [] => []
  | fuel + 1, '\\' :: rest => match escape? rest with
    | some (c, rest) => c :: resolvedRegex fuel rest
    | none => match rest with
      | c :: rest => '\\' :: c :: resolvedRegex fuel rest
      | [] => ['\\']
  | fuel + 1, c :: rest => c :: resolvedRegex fuel rest

/-- A text with its escapes resolved; a backslash before anything else goes away. -/
def resolvedText : Nat → List Char → List Char
  | 0, _ => []
  | _, [] => []
  | fuel + 1, '\\' :: rest => match escape? rest with
    | some (c, rest) => c :: resolvedText fuel rest
    | none => match rest with
      | c :: rest => c :: resolvedText fuel rest
      | [] => ['\\']
  | fuel + 1, c :: rest => c :: resolvedText fuel rest

def pieces : Nat → List Char → List Piece
  | 0, _ => []
  | _, [] => []
  | fuel + 1, '\\' :: rest => match escape? rest with
    | some (c, rest) => .char c :: pieces fuel rest
    | none => match rest with
      | c :: rest =>
        if c.isDigit then .group (c.toNat - 48) :: pieces fuel rest
        else if ['U', 'L', 'E', 'u', 'l'].contains c then .case c :: pieces fuel rest
        else .char c :: pieces fuel rest
      | [] => [.char '\\']
  | fuel + 1, '&' :: rest => .group 0 :: pieces fuel rest
  | fuel + 1, c :: rest => .char c :: pieces fuel rest

def groupsIn (ps : List Piece) : Nat :=
  ps.foldl (fun n p => match p with
    | .group index => max n index
    | _ => n) 0

/-! Delimited parts. -/

/-- The inside of brackets in an expression, in which a delimiter is an ordinary character. -/
def bracketPart? (cs : List Char) : Option (List Char) :=
  let front := cs.takeWhile (· = '^')
  let front := front.take 1
  let rest := cs.drop front.length
  let (front, rest) := match rest with
    | ']' :: rest => (front ++ [']'], rest)
    | rest => (front, rest)
  let inside := rest.takeWhile fun c => c != ']' && c != '\n'
  match rest.drop inside.length with
  | ']' :: _ => some (front ++ inside)
  | _ => none

/-- Text up to a delimiter that is not protected, and what follows. -/
def delimited (isRegex : Bool) (d : Char) : Nat → List Char → Option (List Char × List Char)
  | 0, _ => none
  | fuel + 1, cs =>
    let go := fun (front rest : List Char) =>
      (delimited isRegex d fuel rest).map fun (cs, rest) => (front ++ cs, rest)
    match cs with
    | [] => none
    | '\\' :: c :: rest =>
      if c = d then go (if !isRegex && c = '&' then ['\\', c] else [c]) rest
      else if isRegex && c = 'n' then go ['\n'] rest
      else if c = '\n' then go (if isRegex then ['\n'] else ['\\', '\n']) rest
      else go ['\\', c] rest
    | c :: rest =>
      if c = d then some ([], rest)
      else if c = '\n' then if isRegex then none else go [c] rest
      else if isRegex && c = '[' then
        match bracketPart? rest with
        | none => none
        | some inside =>
          go (c :: resolvedNewlines (inside.length + 1) inside) (rest.drop inside.length)
      else go [c] rest
where
  /-- The inside of brackets with the ends of lines that are written as an escape. -/
  resolvedNewlines : Nat → List Char → List Char
    | 0, _ => []
    | _, [] => []
    | fuel + 1, '\\' :: 'n' :: rest => '\n' :: resolvedNewlines fuel rest
    | fuel + 1, c :: rest => c :: resolvedNewlines fuel rest

def part (isRegex : Bool) (d : Char) (cs : List Char) : Option (List Char × List Char) :=
  delimited isRegex d (cs.length + 1) cs

/-- Where the reading of a part ends that has no end. -/
def partEnd (isRegex : Bool) (cs : List Char) : List Char :=
  if isRegex then cs.dropWhile (· != '\n') else []

def readSearch (extended : Bool) (cs : List Char) (ignoreCase linewise : Bool)
    (left : List Char) : Reading (Option Search) :=
  if cs.isEmpty then .ok none
  else
    let n := if extended then Regex.extended else Regex.basic
    match Regex.read n (resolvedRegex (cs.length + 1) cs) with
    | .ok r => .ok (some ⟨r, ignoreCase, linewise⟩)
    | .error message => fault message left

/-! Addresses. -/

/-- Letters after the expression of an address. -/
def searchFlags : Nat → Bool → Bool → List Char → Bool × Bool × List Char
  | 0, i, m, cs => (i, m, cs)
  | fuel + 1, i, m, cs => match skipBlanks cs with
    | 'I' :: rest => searchFlags fuel true m rest
    | 'M' :: rest => searchFlags fuel i true rest
    | rest => (i, m, rest)

def searchAddress (extended : Bool) (d : Char) (cs : List Char) :
    Reading (Address × List Char) := do
  match part true d cs with
  | none => fault "unterminated address regex" (partEnd true cs)
  | some (text, rest) =>
    let (i, m, rest) := searchFlags (rest.length + 1) false false rest
    return (.search (← readSearch extended text i m rest), rest)

def readAddress (extended : Bool) (cs : List Char) : Reading (Option Address × List Char) :=
  match cs with
  | '$' :: rest => .ok (some .last, rest)
  | '/' :: rest => do
    let (a, rest) ← searchAddress extended '/' rest
    return (some a, rest)
  | '\\' :: d :: rest => do
    let (a, rest) ← searchAddress extended d rest
    return (some a, rest)
  | ['\\'] => fault "unterminated address regex" []
  | c :: _ =>
    if c.isDigit then
      let (n, rest) := readNumber cs
      match skipBlanks rest with
      | '~' :: rest =>
        let (m, rest) := readNumber (skipBlanks rest)
        .ok (some (if m = 0 then .line n else .step n m), rest)
      | _ => .ok (some (.line n), rest)
    else .ok (none, cs)
  | [] => .ok (none, cs)

def readRangeEnd (extended : Bool) (cs : List Char) : Reading (RangeEnd × List Char) :=
  match cs with
  | '+' :: rest => let (n, rest) := readNumber (skipBlanks rest); .ok (.more n, rest)
  | '~' :: rest => let (n, rest) := readNumber (skipBlanks rest); .ok (.multiple n, rest)
  | cs => do
    match ← readAddress extended cs with
    | (some a, rest) => return (.address a, rest)
    | (none, rest) => fault "unexpected \x60,'" (rest.drop 1)

/-! Arguments of commands. -/

/-- Text up to the end of a line that is not protected, and what follows that end. -/
def textLine : List Char → List Char × List Char
  | [] | ['\\'] => ([], [])
  | '\n' :: rest => ([], rest)
  | '\\' :: c :: rest => let (cs, rest) := textLine rest; ('\\' :: c :: cs, rest)
  | c :: rest => let (cs, rest) := textLine rest; (c :: cs, rest)

/-- The text of `a`, `i` or `c`, which ends a line unless there is none at all. -/
def readText (cs : List Char) : List Char × List Char :=
  let whole := fun (start : List Char) =>
    let (text, rest) := textLine start
    (resolvedText (text.length + 1) text ++ ['\n'], rest)
  match skipBlanks cs with
  | ['\\'] => ([], [])
  | '\\' :: rest => match skipBlanks rest with
    | '\n' :: rest => whole rest
    | _ => whole rest
  | rest => whole rest

structure Flags where
  everywhere : Bool
  prints : Bool
  number : Option Nat
  ignoreCase : Bool
  linewise : Bool
  file : Option (List Char)

def readPath (cs : List Char) : Reading (List Char × List Char) :=
  let cs := skipBlanks cs
  let path := cs.takeWhile (· != '\n')
  if path.isEmpty then fault "missing filename in r/R/w/W commands" cs
  else .ok (path, cs.drop (path.length + 1))

def substitutionFlags : Nat → Flags → List Char → Reading (Flags × List Char)
  | 0, f, cs => .ok (f, cs)
  | fuel + 1, f, cs => match skipBlanks cs with
    | 'g' :: rest =>
      if f.everywhere then fault "multiple \x60g' options to \x60s' command" rest
      else substitutionFlags fuel { f with everywhere := true } rest
    | 'p' :: rest =>
      if f.prints then fault "multiple \x60p' options to \x60s' command" rest
      else substitutionFlags fuel { f with prints := true } rest
    | 'i' :: rest | 'I' :: rest => substitutionFlags fuel { f with ignoreCase := true } rest
    | 'm' :: rest | 'M' :: rest => substitutionFlags fuel { f with linewise := true } rest
    | 'e' :: rest => substitutionFlags fuel f rest
    | 'w' :: rest => do
      let (path, rest) ← readPath rest
      return ({ f with file := some path }, rest)
    | '\x7d' :: rest => .ok (f, '\x7d' :: rest)
    | '#' :: rest => .ok (f, '#' :: rest)
    | '\n' :: rest | ';' :: rest => .ok (f, rest)
    | [] => .ok (f, [])
    | c :: rest =>
      if c.isDigit then
        if f.number.isSome then fault "multiple number options to \x60s' command" rest
        else
          let (n, rest) := readNumber (c :: rest)
          if n = 0 then fault "number option to \x60s' command may not be zero" rest
          else substitutionFlags fuel { f with number := some n } rest
      else fault "unknown option to \x60s'" rest

def readSubstitution (extended : Bool) (cs : List Char) : Reading (Action × List Char) := do
  let message := "unterminated \x60s' command"
  match cs with
  | [] => fault message []
  | d :: rest => match part true d rest with
    | none => fault message (partEnd true rest)
    | some (pattern, rest) => match part false d rest with
      | none => fault message (partEnd false rest)
      | some (replacement, rest) =>
        let (f, rest) ← substitutionFlags (rest.length + 1) ⟨false, false, none, false, false, none⟩
          rest
        let ps := pieces (replacement.length + 1) replacement
        let search ← readSearch extended pattern f.ignoreCase f.linewise rest
        let groups := (search.map fun s => s.regex.groupCount).getD 9
        if groups < groupsIn ps then
          fault ("invalid reference \\" ++ toString (groupsIn ps) ++ " on \x60s' command's RHS")
            rest
        else return (.substitute
          ⟨search, ps, f.everywhere, f.number, f.prints, f.file.map ofCharacters⟩, rest)

/-- The separator after a command. -/
def afterAction (cs : List Char) : Reading (List Char) :=
  match skipBlanks cs with
  | [] => .ok []
  | ';' :: rest | '\n' :: rest => .ok rest
  | '\x7d' :: rest => .ok ('\x7d' :: rest)
  | '#' :: rest => .ok ('#' :: rest)
  | _ :: rest => fault "extra characters after command" rest

def readTransliteration (cs : List Char) : Reading (Action × List Char) := do
  let message := "unterminated \x60y' command"
  match cs with
  | [] => fault message []
  | d :: rest => match part false d rest with
    | none => fault message (partEnd false rest)
    | some (a, rest) => match part false d rest with
      | none => fault message (partEnd false rest)
      | some (b, rest) =>
        let a := resolvedText (a.length + 1) a
        let b := resolvedText (b.length + 1) b
        if a.length != b.length then
          fault "strings for \x60y' command are different lengths" rest
        else return (.transliterate (a.zip b), ← afterAction rest)

def readLabel (cs : List Char) : List Char × List Char :=
  let cs := skipBlanks cs
  let word := cs.takeWhile fun c => !isSpace c && c != ';' && c != '\x7d'
  (word, cs.drop word.length)

/-- Reads a command from its letter on, together with the separator after it. -/
def readAction (extended : Bool) (addresses : Nat) (c : Char) (rest : List Char) :
    Reading (Action × List Char) := do
  let ended := fun (a : Action) (rest : List Char) => return (a, ← afterAction rest)
  let onlyOne := "command only uses one address"
  match c with
  | 's' => readSubstitution extended rest
  | 'y' => readTransliteration rest
  | 'a' | 'i' | 'c' =>
    if (skipBlanks rest).isEmpty then fault "expected \\ after \x60a', \x60c' or \x60i'" []
    else
      let (text, rest) := readText rest
      return (.text c text, rest)
  | 'b' | 't' | 'T' =>
    let (label, rest) := readLabel rest
    return (.branch c label, rest)
  | ':' =>
    if 0 < addresses then fault ": doesn't want any addresses" rest
    else
      let (label, rest) := readLabel rest
      if label.isEmpty then fault "\":\" lacks a label" rest else return (.label label, rest)
  | 'r' | 'R' | 'w' | 'W' =>
    let (path, rest) ← readPath rest
    return (.file c (ofCharacters path), rest)
  | 'q' | 'Q' =>
    if 1 < addresses then fault onlyOne rest
    else
      let (status, rest) := readNumber (skipBlanks rest)
      ended (.quit (c = 'Q') status) rest
  | 'l' =>
    let rest := skipBlanks rest
    let (n, after) := readNumber rest
    ended (.list (if after.length = rest.length then none else some n)) after
  | '\x7b' => return (.block, rest)
  | 'v' => return (.plain 'v', (rest.dropWhile fun c => c != '\n' && c != ';').drop 1)
  | 'd' | 'D' | 'p' | 'P' | 'n' | 'N' | 'g' | 'G' | 'h' | 'H' | 'x' | '=' | 'F' | 'z' =>
    ended (.plain c) rest
  | c => fault ("unknown command: \x60" ++ ofCharacters [c] ++ "'") rest

def isZeroLine (first : Option Address) (last : Option RangeEnd) : Bool :=
  match first, last with
  | some (.line 0), some (.address (.search _)) => false
  | some (.line 0), _ => true
  | _, _ => false

/-- Reads commands; the depth says how many blocks are open. -/
def readCommands (extended : Bool) : Nat → Nat → List Char → Reading (List Command × Nat)
  | 0, depth, _ => .ok ([], depth)
  | fuel + 1, depth, cs =>
    match cs.dropWhile fun c => isSpace c || c = ';' with
    | [] => .ok ([], depth)
    | '#' :: rest => readCommands extended fuel depth (rest.dropWhile (· != '\n'))
    | '+' :: rest | '~' :: rest =>
      fault "invalid usage of +N or ~N as first address" (readNumber rest).2
    | cs => do
      let (first, rest) ← readAddress extended cs
      let (last, rest) ← match first, skipBlanks rest with
        | some _, ',' :: rest => do
          let (e, rest) ← readRangeEnd extended (skipBlanks rest)
          pure (some e, rest)
        | _, rest => pure (none, rest)
      let rest := if first.isSome then skipBlanks rest else rest
      if isZeroLine first last then fault "invalid usage of line address 0" (rest.drop 1)
      let negated := rest.head? = some '!'
      let rest := if negated then skipBlanks (rest.drop 1) else rest
      let addresses := first.toList.length + last.toList.length
      match rest with
      | [] => fault "missing command" []
      | '!' :: rest => fault "multiple \x60!'s" rest
      | '#' :: rest => fault "comments don't accept any addresses" rest
      | '\x7d' :: rest =>
        if depth = 0 then fault "unexpected \x60\x7d'" rest
        else if 0 < addresses then fault "\x60\x7d' doesn't want any addresses" rest
        else
          let rest ← afterAction rest
          let (commands, depth) ← readCommands extended fuel (depth - 1) rest
          return (⟨none, none, false, .blockEnd⟩ :: commands, depth)
      | c :: rest =>
        let (action, rest) ← readAction extended addresses c rest
        let depth := if c = '\x7b' then depth + 1 else depth
        let (commands, depth) ← readCommands extended fuel depth rest
        return (⟨first, last, negated, action⟩ :: commands, depth)

/-- A part of the script: its name in messages, and whether it is a file. -/
structure Source where
  fromFile : Option String
  text : String

/-- A message with the place at which it is about. -/
def placed (source : Source) (number : Nat) (all : List Char) (f : Fault) : String :=
  let consumed := match f.left with
    | some left => (ofCharacters (all.take (all.length - left.length))).length
    | none => 0
  match source.fromFile with
  | some path =>
    let line := ((all.take (all.length - (f.left.getD all).length)).filter (· = '\n')).length + 1
    "file " ++ path ++ " line " ++ toString line ++ ": " ++ f.message
  | none =>
    "-e expression #" ++ toString number ++ ", char " ++ toString consumed ++ ": " ++ f.message

/-- A part that ends within a text goes on with the next part. -/
def joined : List Source → List (Source × Nat) → List (Source × Nat)
  | [], done => done.reverse
  | s :: rest, [] => joined rest [(s, 1)]
  | s :: rest, (t, n) :: done =>
    let open_ := (t.text.toList.reverse.takeWhile (· = '\\')).length % 2 = 1
    if open_ then joined rest ((⟨t.fromFile, t.text ++ "\n" ++ s.text⟩, n + 1) :: done)
    else joined rest ((s, n + 1) :: (t, n) :: done)

/-- Whether a script begins with the line that asks for silence. -/
def asksSilence (sources : List Source) : Bool :=
  match sources with
  | s :: _ => s.text = "#n" || s.text.startsWith "#n\n"
  | [] => false

/-- Reads a script in all its parts; what is wrong comes with the exit status. -/
def readScript (extended : Bool) (sources : List Source) :
    Except (String × Nat) (List Command) := do
  let sources := joined sources []
  let (commands, depth) ← sources.foldlM (fun (commands, depth) (source, number) =>
    let cs := characters source.text
    match readCommands extended (cs.length + 2) depth cs with
    | .ok (more, depth) => .ok (commands ++ more, depth)
    | .error f => .error (placed source number cs f, 1)) (([] : List Command), 0)
  if 0 < depth then
    throw ("-e expression #" ++ toString sources.length ++ ", char 0: unmatched \x60\x7b'", 1)
  let labels := commands.filterMap fun c => match c.action with
    | .label name => some name
    | _ => none
  let missing := commands.findSome? fun c => match c.action with
    | .branch _ label => if label.isEmpty || labels.contains label then none else some label
    | _ => none
  match missing with
  | some label => throw ("can't find label for jump to \x60" ++ ofCharacters label ++ "'", 4)
  | none => return commands

end SchemaDecl.Shell.Sed
