import SchemaDecl.Shell.Source

/-! Reading of scripts, second part: words and commands. A script is read one
complete line of commands at a time, because what a line does can come before a
fault further down. Every step of the recursion takes one unit of fuel; as a
step either reads something or descends into something that begins at the same
place, the fuel that `fuelFor` allows is never used up. -/

namespace SchemaDecl.Shell

open Reader

/-- Where a piece of text stands, which decides where it ends and what is special in it. -/
inductive Mode
  | word
  | quotes
  | braces
  /-- In braces, up to a slash. -/
  | pattern
  | quotedBraces
  | document
  | arithmetic
  deriving DecidableEq

namespace Mode

def isQuoted : Mode → Bool
  | .word | .braces | .pattern => false
  | .quotes | .quotedBraces | .document | .arithmetic => true

def isOver (mode : Mode) (depth : Nat) (cs : List Char) : Bool :=
  match mode, cs with
  | _, [] => false
  | .word, c :: _ => [' ', '\t', '\n', ';', '&', '|', '<', '>', '(', ')'].contains c
  | .quotes, c :: _ => c = '"'
  | .braces, c :: _ | .quotedBraces, c :: _ => c = '\x7d'
  | .pattern, c :: _ => c = '\x7d' || c = '/'
  | .document, _ => false
  | .arithmetic, c :: rest => depth = 0 && c = ')' && rest.head? = some ')'

/-- What is wrong when the text ends here, if that is wrong. -/
def unterminated? : Mode → Option String
  | .word | .document => none
  | .quotes => some "Unterminated quoted string"
  | .braces | .pattern | .quotedBraces => some "Missing '\x7d'"
  | .arithmetic => some "Missing '))'"

/-- Whether a backslash before the character only protects it. -/
def protects (mode : Mode) (c : Char) : Bool :=
  match mode with
  | .word | .braces | .pattern => true
  | .quotes => ['$', '\x60', '"', '\\'].contains c
  | .quotedBraces => ['$', '\x60', '"', '\\', '\x7d'].contains c
  | .document | .arithmetic => ['$', '\x60', '\\'].contains c

end Mode

/-- Texts of the same kind that follow each other are one. -/
def prepend (part : Part) (parts : List Part) : List Part :=
  match part, parts with
  | .text q a, .text r b :: rest => if q = r then .text q (a ++ b) :: rest else part :: parts
  | _, _ => part :: parts

def isSpecialParameter (c : Char) : Bool :=
  c.isDigit || ['@', '*', '#', '?', '-', '$', '!'].contains c

/-- Length of the parameter name in braces at the beginning of the text. -/
def parameterLength : List Char → Nat
  | [] => 0
  | c :: rest =>
    if isNameStart c then (rest.takeWhile isNameChar).length + 1
    else if c.isDigit then (rest.takeWhile Char.isDigit).length + 1
    else if isSpecialParameter c then 1
    else 0

/-- The operator after a parameter name, and its length. -/
def operator? (extended : Bool) : List Char → Option (Nat × Operator)
  | '\x7d' :: _ => some (0, .value)
  | ':' :: '-' :: _ => some (2, .default true)
  | ':' :: '=' :: _ => some (2, .assign true)
  | ':' :: '?' :: _ => some (2, .require true)
  | ':' :: '+' :: _ => some (2, .alternative true)
  | '-' :: _ => some (1, .default false)
  | '=' :: _ => some (1, .assign false)
  | '?' :: _ => some (1, .require false)
  | '+' :: _ => some (1, .alternative false)
  | '%' :: '%' :: _ => some (2, .dropEnd true)
  | '%' :: _ => some (1, .dropEnd false)
  | '#' :: '#' :: _ => some (2, .dropStart true)
  | '#' :: _ => some (1, .dropStart false)
  | cs => if extended then
      match cs with
      | ':' :: _ => some (1, .slice)
      | '/' :: '/' :: _ => some (2, .replace true)
      | '/' :: _ => some (1, .replace false)
      | '^' :: '^' :: _ => some (2, .upper true)
      | '^' :: _ => some (1, .upper false)
      | ',' :: ',' :: _ => some (2, .lower true)
      | ',' :: _ => some (1, .lower false)
      | _ => none
    else none

def Operator.isPattern : Operator → Bool
  | .dropEnd _ | .dropStart _ => true
  | _ => false

/-- The text between backquotes, with its backslashes resolved, and its length with the
closing quote. -/
def backquoted (inQuotes : Bool) : List Char → Option (List Char × Nat)
  | [] => none
  | '\x60' :: _ => some ([], 1)
  | '\\' :: c :: rest =>
    let kept := if ['$', '\x60', '\\'].contains c || (inQuotes && c = '"') then [c] else ['\\', c]
    (backquoted inQuotes rest).map fun (cs, n) => (kept ++ cs, n + 2)
  | c :: rest => (backquoted inQuotes rest).map fun (cs, n) => (c :: cs, n + 1)

/-- The text of a quotation with backslash escapes, and its length with the closing quote. -/
def escapedQuotation : List Char → Option (List Char × Nat)
  | [] => none
  | '\'' :: _ => some ([], 1)
  | '\\' :: c :: rest =>
    let kept := match c with
      | 'n' => ['\n']
      | 't' => ['\t']
      | 'r' => ['\r']
      | '\\' | '\'' | '"' => [c]
      | c => ['\\', c]
    (escapedQuotation rest).map fun (cs, n) => (kept ++ cs, n + 2)
  | c :: rest => (escapedQuotation rest).map fun (cs, n) => (c :: cs, n + 1)

/-- A word that begins with a name and an equals sign, cut after the sign. -/
def assignment? : List Part → Option (String × List Part)
  | .text false s :: rest =>
    let name := s.toList.takeWhile (· != '=')
    let value := s.toList.drop (name.length + 1)
    if name.length < s.length && isName (String.ofList name) then
      some (String.ofList name,
        if value.isEmpty then rest else .text false (String.ofList value) :: rest)
    else none
  | _ => none

/-- A delimiter stands for the text it is written with, without its quotes. -/
def delimiterOf (parts : List Part) : String × Bool :=
  let text := parts.map fun
    | .text _ s => s
    | .parameter _ name _ _ _ => "$" ++ name
    | .substitution _ _ | .arithmetic _ _ => ""
  let quoted := parts.any fun
    | .text q _ => q
    | _ => false
  (String.join text, quoted)

def announce (descriptor : Nat) (dropTabs : Bool) (parts : List Part) : Reader Redirection := do
  let s ← get
  let (delimiter, quoted) := delimiterOf parts
  set { s with
    waiting := s.waiting ++ [Awaited.mk s.announced delimiter (!quoted) dropTabs]
    announced := s.announced + 1 }
  return .document descriptor s.announced

def redirectionOf (descriptor : Nat) (target : Target) (parts : List Part) : Reader Redirection :=
  match target with
  | .file mode => return .file descriptor mode parts
  | .duplicate => return .duplicate descriptor parts
  | .document dropTabs => announce descriptor dropTabs parts
  | .literal => return .literal descriptor parts
  | .everything mode => return .everything mode parts

def isExtendedKeyword (extended : Bool) (t : Token) (name : String) : Bool :=
  extended && t.plain? = some name

mutual
/-- Parts up to the end of the mode, which is not taken. -/
def parts : Nat → Mode → Nat → Reader (List Part)
  | 0, _, _ => syntaxFault "too deep"
  | fuel + 1, mode, depth => do
    let cs ← rest
    if mode.isOver depth cs then return []
    match cs with
    | [] => match mode.unterminated? with
      | none => return []
      | some message => syntaxFault message
    | '\\' :: '\n' :: _ => do
      advance 2
      parts fuel mode depth
    | ['\\'] => do
      advance 1
      return [.text true "\\"]
    | '\\' :: c :: _ => do
      advance 2
      let text := if mode.protects c then String.singleton c else "\\" ++ String.singleton c
      return prepend (.text true text) (← parts fuel mode depth)
    | c :: _ =>
      let front ← if c = '\'' && !mode.isQuoted then singleQuoted
        else if c = '"' && !mode.isQuoted then do
          advance 1
          let inside ← parts fuel .quotes 0
          advance 1
          pure (if inside.isEmpty then [.text true ""] else inside)
        else if c = '"' && mode = .quotedBraces then do
          advance 1
          pure []
        else if c = '$' then dollar fuel mode
        else if c = '\x60' then substituted fuel mode
        else do
          advance 1
          pure [.text mode.isQuoted (String.singleton c)]
      let depth := if c = '(' then depth + 1 else if c = ')' then depth - 1 else depth
      return front.foldr prepend (← parts fuel mode depth)

def singleQuoted : Reader (List Part) := do
  let cs := (← rest).drop 1
  let inside := cs.takeWhile (· != '\'')
  if inside.length = cs.length then syntaxFault "Unterminated quoted string"
  advance (inside.length + 2)
  return [.text true (String.ofList inside)]

/-- What a dollar sign begins. -/
def dollar : Nat → Mode → Reader (List Part)
  | 0, _ => syntaxFault "too deep"
  | fuel + 1, mode => do
    let s ← get
    let quoted := mode.isQuoted
    match s.rest.drop 1 with
    | '(' :: '(' :: _ => do
      advance 3
      let inside ← parts fuel .arithmetic 0
      advance 2
      return [.arithmetic quoted inside]
    | '(' :: _ => do
      advance 2
      let body ← compound fuel true
      let t ← next fuel
      match t with
      | .closing => return [.substitution quoted body]
      | t => unexpected t (some ")")
    | '\x7b' :: _ => do
      advance 2
      return [← braced fuel mode]
    | '\'' :: after =>
      if s.extended && mode = .word then
        match escapedQuotation after with
        | some (text, n) => do
          advance (n + 2)
          return [.text true (String.ofList text)]
        | none => syntaxFault "Unterminated quoted string"
      else do
        advance 1
        return [.text quoted "$"]
    | c :: after =>
      if isNameStart c then do
        let name := c :: after.takeWhile isNameChar
        advance (name.length + 1)
        return [.parameter quoted (String.ofList name) .value [] []]
      else if isSpecialParameter c then do
        advance 2
        return [.parameter quoted (String.singleton c) .value [] []]
      else do
        advance 1
        return [.text quoted "$"]
    | [] => do
      advance 1
      return [.text quoted "$"]

/-- A parameter in braces, the opening brace being taken. -/
def braced : Nat → Mode → Reader Part
  | 0, _ => syntaxFault "too deep"
  | fuel + 1, mode => do
    let s ← get
    let quoted := mode.isQuoted
    let ofLength := parameterLength (s.rest.drop 1)
    if s.rest.head? = some '#' && 0 < ofLength &&
        (s.rest.drop (ofLength + 1)).head? = some '\x7d' then
      advance (ofLength + 2)
      return .parameter quoted (String.ofList ((s.rest.drop 1).take ofLength)) .length [] []
    let n := parameterLength s.rest
    let name := String.ofList (s.rest.take n)
    match n, operator? s.extended (s.rest.drop n) with
    | _ + 1, some (length, operator) => do
      advance (n + length)
      let inner : Mode := match operator with
        | .replace _ => .pattern
        | operator => if operator.isPattern || !quoted then .braces else .quotedBraces
      let operand ← parts fuel inner 0
      let second ← if inner = .pattern && (← rest).head? = some '/' then do
          advance 1
          parts fuel .braces 0
        else pure []
      advance 1
      return .parameter quoted name operator operand second
    | _, _ => do
      discard (parts fuel .braces 0)
      advance 1
      return .parameter quoted name .invalid [] []

/-- A command between backquotes, which is read as a script of its own. -/
def substituted : Nat → Mode → Reader (List Part)
  | 0, _ => syntaxFault "too deep"
  | fuel + 1, mode => do
    let s ← get
    match backquoted mode.isQuoted (s.rest.drop 1) with
    | none => do
      advance s.rest.length
      syntaxFault "EOF in backquote substitution"
    | some (inside, n) => do
      set { s with rest := inside, line := 1, waiting := [] }
      let body ← compound fuel true
      let t ← next fuel
      match t with
      | .endOfText => do
        let inner ← get
        set { s with documents := inner.documents, announced := inner.announced }
        advance (n + 1)
        return [.substitution mode.isQuoted body]
      | t => unexpected t none

def token : Nat → Reader Token
  | 0 => syntaxFault "too deep"
  | fuel + 1 => do
    modify fun s =>
      let (rest, joined) := skipGap false s.rest
      { s with rest, line := s.line + joined }
    let s ← get
    match redirectToken? s.extended s.rest with
    | some (n, t) => do
      advance n
      return t
    | none => match operatorToken? s.rest with
      | some (n, t) => do
        advance n
        match t with
        | .lineEnd => modify readDocuments
        | _ => pure ()
        return t
      | none =>
        if s.rest.isEmpty then
          modify readDocuments
          return .endOfText
        else return .word (← parts fuel .word 0)

def peek : Nat → Reader Token
  | 0 => syntaxFault "too deep"
  | fuel + 1 => do
    match (← get).held with
    | some t => return t
    | none => do
      let t ← token fuel
      modify fun s => { s with held := some t }
      return t

def next : Nat → Reader Token
  | 0 => syntaxFault "too deep"
  | fuel + 1 => do
    let t ← peek fuel
    modify fun s => { s with held := none }
    return t

def skipLines : Nat → Reader Unit
  | 0 => syntaxFault "too deep"
  | fuel + 1 => do
    match ← peek fuel with
    | .lineEnd => do
      discard (next fuel)
      skipLines fuel
    | _ => return ()

def expectKeyword : Nat → String → Reader Unit
  | 0, _ => syntaxFault "too deep"
  | fuel + 1, name => do
    let t ← next fuel
    if t.isKeyword name then return () else unexpected t (some name)

/-- Commands up to a token that ends a list. -/
def compound : Nat → Bool → Reader (List Command)
  | 0, _ => syntaxFault "too deep"
  | fuel + 1, mayBeEmpty => do
    skipLines fuel
    let t ← peek fuel
    if t.isEnd || (mayBeEmpty && t.endsList) then return []
    let command ← andOr fuel
    match ← peek fuel with
    | .background => do
      discard (next fuel)
      return .background command :: (← compound fuel true)
    | .semicolon | .lineEnd => do
      discard (next fuel)
      return command :: (← compound fuel true)
    | _ => return [command]

def andOr : Nat → Reader Command
  | 0 => syntaxFault "too deep"
  | fuel + 1 => do andOrRest fuel (← pipeline fuel)

def andOrRest : Nat → Command → Reader Command
  | 0, _ => syntaxFault "too deep"
  | fuel + 1, left => do
    match ← peek fuel with
    | .both => do
      discard (next fuel)
      skipLines fuel
      andOrRest fuel (.both left (← pipeline fuel))
    | .either => do
      discard (next fuel)
      skipLines fuel
      andOrRest fuel (.either left (← pipeline fuel))
    | _ => return left

def pipeline : Nat → Reader Command
  | 0 => syntaxFault "too deep"
  | fuel + 1 => do
    if (← peek fuel).isKeyword "!" then
      discard (next fuel)
      return .negated (← stages fuel)
    else stages fuel

def stages : Nat → Reader Command
  | 0 => syntaxFault "too deep"
  | fuel + 1 => do
    let first ← command fuel
    let others ← moreStages fuel
    return if others.isEmpty then first else .pipeline (first :: others)

def moreStages : Nat → Reader (List Command)
  | 0 => syntaxFault "too deep"
  | fuel + 1 => do
    match ← peek fuel with
    | .pipe => do
      discard (next fuel)
      skipLines fuel
      let stage ← command fuel
      return stage :: (← moreStages fuel)
    | _ => return []

def command : Nat → Reader Command
  | 0 => syntaxFault "too deep"
  | fuel + 1 => do
    let t ← peek fuel
    let s ← get
    if t.isKeyword "if" then
      discard (next fuel)
      redirectable fuel s.line (← conditional fuel)
    else if t.isKeyword "while" || t.isKeyword "until" then
      discard (next fuel)
      let condition ← compound fuel false
      expectKeyword fuel "do"
      let body ← compound fuel false
      expectKeyword fuel "done"
      redirectable fuel s.line (.loop (t.isKeyword "until") condition body)
    else if t.isKeyword "for" then
      discard (next fuel)
      redirectable fuel s.line (← iteration fuel s.line)
    else if t.isKeyword "case" then
      discard (next fuel)
      redirectable fuel s.line (← choice fuel s.line)
    else if t.isKeyword "\x7b" then
      discard (next fuel)
      let body ← compound fuel false
      expectKeyword fuel "\x7d"
      redirectable fuel s.line (.sequence body)
    else if isExtendedKeyword s.extended t "function" then
      discard (next fuel)
      functionCommand fuel
    else if isExtendedKeyword s.extended t "[[" then
      discard (next fuel)
      return .condition s.line (← conditionWords fuel)
    else match t with
      | .opening =>
        if s.extended && s.rest.head? = some '(' then do
          modify fun s => { s with held := none }
          advance 1
          let inside ← parts fuel .arithmetic 0
          advance 2
          return .calculation s.line inside
        else do
          discard (next fuel)
          let body ← compound fuel false
          match ← next fuel with
          | .closing => redirectable fuel s.line (.subshell body)
          | t => unexpected t (some ")")
      | .word _ =>
        if ["!", "do", "done", "elif", "else", "esac", "fi", "in", "then", "\x7d"].any
            t.isKeyword then
          unexpected t none
        else simple fuel s.line [] [] []
      | .redirect _ _ => simple fuel s.line [] [] []
      | t => unexpected t none

/-- The redirections after a command that is not simple. -/
def redirectable : Nat → Nat → Command → Reader Command
  | 0, _, _ => syntaxFault "too deep"
  | fuel + 1, line, command => do
    let found ← redirections fuel
    return if found.isEmpty then command else .redirected line command found

def redirections : Nat → Reader (List Redirection)
  | 0 => syntaxFault "too deep"
  | fuel + 1 => do
    match ← peek fuel with
    | .redirect descriptor target => do
      discard (next fuel)
      let r ← redirectionWord fuel descriptor target
      return r :: (← redirections fuel)
    | _ => return []

def redirectionWord : Nat → Nat → Target → Reader Redirection
  | 0, _, _ => syntaxFault "too deep"
  | fuel + 1, descriptor, target => do
    match ← next fuel with
    | .word parts => redirectionOf descriptor target parts
    | t => unexpected t none

/-- A condition whose `if` was taken. -/
def conditional : Nat → Reader Command
  | 0 => syntaxFault "too deep"
  | fuel + 1 => do
    let condition ← compound fuel false
    expectKeyword fuel "then"
    let yes ← compound fuel false
    let t ← next fuel
    if t.isKeyword "elif" then return .branch condition yes [← conditional fuel]
    else if t.isKeyword "else" then
      let no ← compound fuel false
      expectKeyword fuel "fi"
      return .branch condition yes no
    else if t.isKeyword "fi" then return .branch condition yes []
    else unexpected t (some "fi")

def words : Nat → Reader (List (List Part))
  | 0 => syntaxFault "too deep"
  | fuel + 1 => do
    match ← peek fuel with
    | .word parts => do
      discard (next fuel)
      return parts :: (← words fuel)
    | _ => return []

def iteration : Nat → Nat → Reader Command
  | 0, _ => syntaxFault "too deep"
  | fuel + 1, line => do
    let t ← next fuel
    let name := (t.plain?.filter isName).getD ""
    if name.isEmpty then syntaxFault "Bad for loop variable"
    skipLines fuel
    let list ← if (← peek fuel).isKeyword "in" then do
        discard (next fuel)
        let list ← words fuel
        match ← next fuel with
        | .semicolon | .lineEnd => pure (some list)
        | t => unexpected t none
      else do
        match ← peek fuel with
        | .semicolon => discard (next fuel)
        | _ => pure ()
        pure none
    skipLines fuel
    expectKeyword fuel "do"
    let body ← compound fuel false
    expectKeyword fuel "done"
    return .iterate line name list body

def choice : Nat → Nat → Reader Command
  | 0, _ => syntaxFault "too deep"
  | fuel + 1, line => do
    match ← next fuel with
    | .word word => do
      skipLines fuel
      expectKeyword fuel "in"
      return .choose line word (← cases fuel)
    | t => unexpected t none

def cases : Nat → Reader (List (List (List Part) × List Command))
  | 0 => syntaxFault "too deep"
  | fuel + 1 => do
    skipLines fuel
    let t ← next fuel
    if t.isKeyword "esac" then return []
    let t ← match t with
      | .opening => next fuel
      | t => pure t
    match t with
    | .word first => do
      let patterns ← morePatterns fuel
      match ← next fuel with
      | .closing => do
        let body ← compound fuel true
        skipLines fuel
        match ← next fuel with
        | .caseEnd => return (first :: patterns, body) :: (← cases fuel)
        | t =>
          if t.isKeyword "esac" then return [(first :: patterns, body)]
          else unexpected t (some ";;")
      | t => unexpected t (some ")")
    | t => unexpected t none

def morePatterns : Nat → Reader (List (List Part))
  | 0 => syntaxFault "too deep"
  | fuel + 1 => do
    match ← peek fuel with
    | .pipe => do
      discard (next fuel)
      match ← next fuel with
      | .word parts => return parts :: (← morePatterns fuel)
      | t => unexpected t none
    | _ => return []

/-- A function in the larger language, the introducing word being taken. -/
def functionCommand : Nat → Reader Command
  | 0 => syntaxFault "too deep"
  | fuel + 1 => do
    match ← next fuel with
    | .word parts => do
      match ← peek fuel with
      | .opening => do
        discard (next fuel)
        discard (next fuel)
      | _ => pure ()
      skipLines fuel
      return .define (delimiterOf parts).1 (← command fuel)
    | t => unexpected t none

/-- Words of a condition in double brackets; operators stand for themselves. -/
def conditionWords : Nat → Reader (List (List Part))
  | 0 => syntaxFault "too deep"
  | fuel + 1 => do
    let t ← next fuel
    if t.plain? = some "]]" then return []
    let written (s : String) : List Part := [.text false s]
    match t with
    | .word parts => return parts :: (← conditionWords fuel)
    | .both => return written "&&" :: (← conditionWords fuel)
    | .either => return written "||" :: (← conditionWords fuel)
    | .opening => return written "(" :: (← conditionWords fuel)
    | .closing => return written ")" :: (← conditionWords fuel)
    | .redirect 0 _ => return written "<" :: (← conditionWords fuel)
    | .redirect _ _ => return written ">" :: (← conditionWords fuel)
    | .lineEnd => conditionWords fuel
    | t => unexpected t none

/-- A simple command, of which the given pieces were read; or the definition of a function. -/
def simple : Nat → Nat → List (String × List Part) → List (List Part) → List Redirection →
    Reader Command
  | 0, _, _, _, _ => syntaxFault "too deep"
  | fuel + 1, line, assignments, words, redirections => do
    match ← peek fuel with
    | .word parts => do
      discard (next fuel)
      match words, assignment? parts with
      | [], some a => simple fuel line (assignments ++ [a]) [] redirections
      | _, _ => simple fuel line assignments (words ++ [parts]) redirections
    | .redirect descriptor target => do
      discard (next fuel)
      let r ← redirectionWord fuel descriptor target
      simple fuel line assignments words (redirections ++ [r])
    | .opening =>
      match assignments, words, redirections with
      | [], [name], [] => do
        discard (next fuel)
        match ← next fuel with
        | .closing => do
          let name := (delimiterOf name).1
          if !isName name then syntaxFault "Bad function name"
          skipLines fuel
          return .define name (← command fuel)
        | t => unexpected t (some ")")
      | _, _, _ => return .simple line assignments words redirections
    | _ => return .simple line assignments words redirections
end

def fuelFor (cs : List Char) : Nat := 16 * cs.length + 256

/-- Commands of one line, up to its end. -/
def lineCommands : Nat → Nat → Reader (List Command)
  | 0, _ => syntaxFault "too deep"
  | steps + 1, fuel => do
    let command ← andOr fuel
    let t ← next fuel
    let command ← match t with
      | .background => pure (.background command)
      | .semicolon | .lineEnd | .endOfText => pure command
      | t => unexpected t none
    match t with
    | .lineEnd | .endOfText => return [command]
    | _ => match ← peek fuel with
      | .lineEnd | .endOfText => do
        discard (next fuel)
        return [command]
      | _ => return command :: (← lineCommands steps fuel)

/-- The next line of a script that holds commands, if there is one. -/
def nextLine : Reader (Option (List Command)) := do
  let fuel := fuelFor (← rest)
  skipLines fuel
  match ← peek fuel with
  | .endOfText => return none
  | _ => return some (← lineCommands fuel fuel)

def sourceOf (extended : Bool) (announced : Nat) (text : String) : Source :=
  ⟨text.toList, 1, extended, [], [], announced, none⟩

/-- The parts of a here document that is expanded. -/
def documentParts (extended : Bool) (text : String) : Except ReadFault (List Part) :=
  (parts (fuelFor text.toList) .document 0).run' (sourceOf extended 0 text)

end SchemaDecl.Shell
