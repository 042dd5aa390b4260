import SchemaDecl.Shell.Awk.Pattern
import SchemaDecl.Shell.Awk.Syntax
import SchemaDecl.Shell.Awk.Token

/-! Reading a script. Texts are joined by standing side by side, which binds more
loosely than a sign between them, so that a minus after a text subtracts. Within
the arguments of a printing statement `>` and `|` say where the output goes. -/

namespace SchemaDecl.Shell.Awk

/-- What the reading has before it and what it knows about the place. -/
structure Reader where
  rest : List Lexeme
  parentheses : Nat
  braces : Nat
  loops : Nat
  inFunction : Bool
  /-- Whether the rule is one for records, in which the next record can be asked for. -/
  forRecords : Bool
  /-- The names met so far, and whether they are tables; parameters of a function shadow them. -/
  kinds : List (String × Bool)
  functions : List (String × List String)
  calls : List (String × Nat × Nat)

/-- A script can fail to be one for several reasons that are reported together. -/
abbrev Reading := StateT Reader (Except (List String))

namespace Reading

def peek : Reading Token := return ((← get).rest.head?.map Lexeme.token).getD .finish

def line : Reading Nat := return ((← get).rest.head?.map Lexeme.line).getD 1

def advance : Reading Unit := modify fun r => { r with rest := r.rest.drop 1 }

def failAt (n : Nat) (message : String) : Reading α :=
  throw ["line " ++ toString n ++ ": " ++ message]

/-- Refuses the token at hand. -/
def refuse : Reading α := do
  let r ← get
  let n ← line
  let token ← peek
  let atLine := fun (n : Nat) (message : String) => "line " ++ toString n ++ ": " ++ message
  match token with
  | .fault message =>
    throw [if message.startsWith "unexpected" then toString n ++ ": " ++ message
      else atLine n message]
  | .finish =>
    if r.parentheses != 0 then failAt n "missing ) near end of file"
    else if r.braces != 0 then failAt n "missing \x7d near end of file"
    else failAt n "syntax error at or near end of line"
  | token =>
    let ends := match token with
      | .lineEnd | .sign "\x7d" | .sign ";" => true
      | _ => false
    if ends && r.parentheses != 0 then failAt n ("missing ) near " ++ token.shown)
    else match token with
      | .sign "\x7d" =>
        if r.braces = 0 then
          let next := ((r.rest.drop 1).head?.map fun l => l.token.shown).getD "end of line"
          throw [atLine n "extra '\x7d'", atLine n ("syntax error at or near " ++ next)]
        else failAt n "syntax error at or near \x7d"
      | .sign ")" =>
        if r.parentheses = 0 then failAt n "extra ')'" else failAt n "syntax error at or near )"
      | token => failAt n ("syntax error at or near " ++ token.shown)

def isSign (s : String) : Reading Bool := do
  match ← peek with
  | .sign t => return s = t
  | _ => return false

def isKeyword (s : String) : Reading Bool := do
  match ← peek with
  | .keyword t => return s = t
  | _ => return false

/-- Passes over a sign if it is there. -/
def took (s : String) : Reading Bool := do
  let found ← isSign s
  if found then advance
  return found

def sign (s : String) : Reading Unit := do
  if !(← took s) then refuse

def opened : Reading Unit := do
  sign "("
  modify fun r => { r with parentheses := r.parentheses + 1 }

def closed : Reading Unit := do
  sign ")"
  modify fun r => { r with parentheses := r.parentheses - 1 }

def skipLineEnds : Nat → Reading Unit
  | 0 => return ()
  | fuel + 1 => do
    match ← peek with
    | .lineEnd =>
      advance
      skipLineEnds fuel
    | _ => return ()

/-- Notes that a name is a table or that it is none. -/
def noteKind (name : String) (isTable : Bool) : Reading Unit := do
  let r ← get
  match r.kinds.lookup name with
  | none => set { r with kinds := (name, isTable) :: r.kinds }
  | some known =>
    if known != isTable then
      failAt (← line) ("illegal reference to " ++ (if known then "array " else "variable ") ++ name)

def regex (source : String) : Reading Expr := do
  match Pattern.read source with
  | .ok r => return .regex r
  | .error fault =>
    failAt (← line) ("regular expression compile failed (" ++ fault.message ++ ")\n" ++ source)

/-- A constant text where an expression to search for is wanted. -/
def asRegex (e : Expr) : Reading Expr := do
  match e with
  | .text source => regex source
  | e => return e

/-- How many arguments a function of the language takes. -/
def arity : String → Nat × Option Nat
  | "length" | "srand" | "fflush" => (0, some 1)
  | "substr" | "split" | "sub" | "gsub" => (2, some 3)
  | "index" | "match" | "atan2" => (2, some 2)
  | "sprintf" => (1, none)
  | "rand" | "systime" => (0, some 0)
  | "strftime" => (0, some 3)
  | _ => (1, some 1)

def updateOp? : Token → Option BinaryOp
  | .sign "+=" => some .add
  | .sign "-=" => some .subtract
  | .sign "*=" => some .multiply
  | .sign "/=" => some .divide
  | .sign "%=" => some .remainder
  | .sign "^=" => some .power
  | _ => none

/-- A sign between two operands, and how tightly it binds. -/
def binaryOp? : Token → Option (BinaryOp × Nat)
  | .sign "+" => some (.add, 1)
  | .sign "-" => some (.subtract, 1)
  | .sign "*" => some (.multiply, 2)
  | .sign "/" => some (.divide, 2)
  | .sign "%" => some (.remainder, 2)
  | .sign "^" => some (.power, 5)
  | _ => none

def comparison? (printing : Bool) : Token → Option Comparison
  | .sign "<" => some .less
  | .sign "<=" => some .lessOrEqual
  | .sign "==" => some .equal
  | .sign "!=" => some .notEqual
  | .sign ">" => if printing then none else some .greater
  | .sign ">=" => some .greaterOrEqual
  | _ => none

/-- Whether a token can begin an operand that is joined to the one before it. -/
def startsOperand : Token → Bool
  | .number .. | .text _ | .regex _ | .name _ | .function _ | .builtin _ => true
  | .sign s => ["(", "$", "!", "-", "+", "++", "--"].contains s
  | _ => false

/-- Whether a token can begin what a line is read into. -/
def startsTarget : Token → Bool
  | .name _ | .sign "$" => true
  | _ => false

/-- The sign of a unary operator. -/
def unary? : Token → Option (Expr → Expr)
  | .sign "!" => some .negation
  | .sign "-" => some .minus
  | .sign "+" => some .plus
  | _ => none

mutual
/-- A whole expression. Within printing a `>` is no comparison. -/
def expr (printing : Bool) : Nat → Reading Expr
  | 0 => refuse
  | fuel + 1 => do
    let condition ← alternatives printing fuel
    if ← took "?" then
      skipLineEnds 1
      let a ← expr printing fuel
      skipLineEnds 1
      sign ":"
      skipLineEnds 1
      return .choice condition a (← expr printing fuel)
    else return condition

def alternatives (printing : Bool) : Nat → Reading Expr
  | 0 => refuse
  | fuel + 1 => do moreAlternatives printing fuel (← conditions printing fuel)

def moreAlternatives (printing : Bool) : Nat → Expr → Reading Expr
  | 0, _ => refuse
  | fuel + 1, a => do
    if ← took "||" then moreAlternatives printing fuel (.either a (← conditions printing fuel))
    else return a

def conditions (printing : Bool) : Nat → Reading Expr
  | 0 => refuse
  | fuel + 1 => do moreConditions printing fuel (← membership printing fuel)

def moreConditions (printing : Bool) : Nat → Expr → Reading Expr
  | 0, _ => refuse
  | fuel + 1, a => do
    if ← took "&&" then moreConditions printing fuel (.both a (← membership printing fuel))
    else return a

def membership (printing : Bool) : Nat → Reading Expr
  | 0 => refuse
  | fuel + 1 => do
    let a ← matching printing fuel
    moreMembership fuel a

def moreMembership : Nat → Expr → Reading Expr
  | 0, _ => refuse
  | fuel + 1, a => do
    if ← isKeyword "in" then
      advance
      match ← peek with
      | .name table =>
        noteKind table true
        advance
        let index := match a with
          | .group es => es
          | e => [e]
        moreMembership fuel (.member index table)
      | _ => refuse
    else return a

def matching (printing : Bool) : Nat → Reading Expr
  | 0 => refuse
  | fuel + 1 => do moreMatching printing fuel (← comparing printing fuel)

def moreMatching (printing : Bool) : Nat → Expr → Reading Expr
  | 0, _ => refuse
  | fuel + 1, a => do
    if ← took "~" then
      moreMatching printing fuel (.matching false a (← asRegex (← comparing printing fuel)))
    else if ← took "!~" then
      moreMatching printing fuel (.matching true a (← asRegex (← comparing printing fuel)))
    else return a

def comparing (printing : Bool) : Nat → Reading Expr
  | 0 => refuse
  | fuel + 1 => do moreComparing printing fuel (← assigning printing fuel)

def moreComparing (printing : Bool) : Nat → Expr → Reading Expr
  | 0, _ => refuse
  | fuel + 1, a => do
    match comparison? printing (← peek) with
    | some c =>
      advance
      moreComparing printing fuel (.compare c a (← assigning printing fuel))
    | none => return a

/-- Operands side by side; one alone can be assigned to. -/
def assigning (printing : Bool) : Nat → Reading Expr
  | 0 => refuse
  | fuel + 1 => do
    let a ← joined printing fuel
    if a.isTarget then
      let token ← peek
      match token, updateOp? token with
      | .sign "=", _ =>
        advance
        return .assign a (← expr printing fuel)
      | _, some op =>
        advance
        return .update op a (← expr printing fuel)
      | _, none => return a
    else return a

def joined (printing : Bool) : Nat → Reading Expr
  | 0 => refuse
  | fuel + 1 => do moreJoined printing fuel (← operand printing 1 fuel)

def moreJoined (printing : Bool) : Nat → Expr → Reading Expr
  | 0, _ => refuse
  | fuel + 1, a => do
    if startsOperand (← peek) then
      moreJoined printing fuel (.join a (← operand printing 1 fuel))
    else return a

/-- An operand with the signs that bind at least so tightly. -/
def operand (printing : Bool) (least : Nat) : Nat → Reading Expr
  | 0 => refuse
  | fuel + 1 => do
    match unary? (← peek) with
    | some f =>
      advance
      let a ← operand printing 3 fuel
      moreOperand printing least fuel (f a)
    | none => moreOperand printing least fuel (← primary fuel)

def moreOperand (printing : Bool) (least : Nat) : Nat → Expr → Reading Expr
  | 0, _ => refuse
  | fuel + 1, a => do
    let token ← peek
    match token, binaryOp? token with
    | .sign "|", _ =>
      if printing || 4 < least then return a
      else
        advance
        if !(← isKeyword "getline") then refuse
        advance
        let target ← lineTarget fuel
        moreOperand printing least fuel (.line (.command a) target)
    | _, some (op, level) =>
      if level < least then return a
      else
        advance
        let b ← operand printing (if level = 5 then 5 else level + 1) fuel
        moreOperand printing least fuel (.binary op a b)
    | _, none => return a

def lineTarget : Nat → Reading (Option Expr)
  | 0 => refuse
  | fuel + 1 => do
    if startsTarget (← peek) then return some (← target fuel) else return none

/-- Something that can be assigned to. -/
def target : Nat → Reading Expr
  | 0 => refuse
  | fuel + 1 => do
    match ← peek with
    | .sign "$" =>
      advance
      return .field (← fieldNumber fuel)
    | .name name =>
      advance
      if ← isSign "[" then
        noteKind name true
        advance
        let index ← exprs fuel
        sign "]"
        return .element name index
      else
        return .name name
    | _ => refuse

def fieldNumber : Nat → Reading Expr
  | 0 => refuse
  | fuel + 1 => do
    let token ← peek
    match token, unary? token with
    | _, some f =>
      advance
      return f (← fieldNumber fuel)
    | .sign "++", _ | .sign "--", _ => primary fuel
    | .sign "$", _ | .name _, _ => target fuel
    | _, _ => primary fuel

def primary : Nat → Reading Expr
  | 0 => refuse
  | fuel + 1 => do
    match ← peek with
    | .number x _ =>
      advance
      return .number x
    | .text s =>
      advance
      return .text s
    | .regex source => do
      let e ← regex source
      advance
      return e
    | .sign "(" => do
      opened
      let es ← exprs fuel
      closed
      return .group es
    | .sign "++" =>
      advance
      return .step .add false (← scalarTarget fuel)
    | .sign "--" =>
      advance
      return .step .subtract false (← scalarTarget fuel)
    | .sign "$" => afterTarget (← target fuel)
    | .name name => do
      let e ← target fuel
      match e with
      | .name _ =>
        let isArgument ← isWholeArgument
        if !isArgument then noteKind name false
      | _ => pure ()
      afterTarget e
    | .function name => do
      let n ← line
      advance
      opened
      let arguments ← argumentList fuel
      closed
      modify fun r => { r with calls := r.calls ++ [(name, arguments.length, n)] }
      return .call name arguments
    | .builtin name =>
      advance
      builtin name fuel
    | .keyword "getline" => do
      advance
      let target ← lineTarget fuel
      if ← took "<" then return .line (.file (← operand false 5 fuel)) target
      else return .line .input target
    | _ => refuse

/-- Whether the name just read stands alone between signs of a list, where it can be a table. -/
def isWholeArgument : Reading Bool := do
  match ← peek with
  | .sign "," | .sign ")" => return true
  | _ => return false

def scalarTarget : Nat → Reading Expr
  | 0 => refuse
  | fuel + 1 => do
    match ← target fuel with
    | .name name =>
      noteKind name false
      return .name name
    | e => return e

/-- A target with a sign after it that makes it go up or down. -/
def afterTarget (e : Expr) : Reading Expr := do
  if ← took "++" then return .step .add true e
  else if ← took "--" then return .step .subtract true e
  else return e

def builtin (name : String) : Nat → Reading Expr
  | 0 => refuse
  | fuel + 1 => do
    let n ← line
    if !(← isSign "(") then
      if name = "length" then return .builtin "length" [] else refuse
    opened
    let arguments ← argumentList fuel
    let (least, most) := arity name
    let isPlain := !(["length", "split", "sub", "gsub"].contains name)
    if arguments.length < least || most.any (· < arguments.length) then
      if isPlain then failAt n ("wrong number of arguments in call to " ++ name) else refuse
    match name, arguments with
    | "split", _ :: .name table :: _ => noteKind table true
    | "split", _ => refuse
    | "sub", [_, _, e] | "gsub", [_, _, e] =>
      let isPlace := match e with
        | .group [e] => e.isTarget
        | e => e.isTarget
      if !isPlace then refuse
    | _, _ => pure ()
    closed
    match name, arguments with
    | "match", [a, b] => return .builtin name [a, ← asRegex b]
    | "sub", a :: rest | "gsub", a :: rest => return .builtin name ((← asRegex a) :: rest)
    | _, _ => return .builtin name arguments

/-- Arguments, of which there may be none. -/
def argumentList : Nat → Reading (List Expr)
  | 0 => refuse
  | fuel + 1 => do
    if ← isSign ")" then return [] else exprs fuel

def exprs : Nat → Reading (List Expr)
  | 0 => refuse
  | fuel + 1 => do
    let e ← expr false fuel
    if ← took "," then return e :: (← exprs fuel) else return [e]
end

/-! Statements. -/

def printed : Nat → Reading (List Expr)
  | 0 => refuse
  | fuel + 1 => do
    match ← peek with
    | .lineEnd | .finish | .sign ";" | .sign "\x7d" | .sign ">" | .sign ">>" | .sign "|" =>
      return []
    | _ =>
      let e ← expr true fuel
      if ← took "," then return e :: (← someMore fuel) else return [e]
where
  someMore : Nat → Reading (List Expr)
    | 0 => refuse
    | fuel + 1 => do
      let e ← expr true fuel
      if ← took "," then return e :: (← someMore fuel) else return [e]

/-- What is printed, where a list can stand between parentheses, and where it goes. -/
def printing (fuel : Nat) : Reading (List Expr × Destination) := do
  let arguments ← printed fuel
  let arguments := match arguments with
    | [.group es] => es
    | es => es
  if ← took ">" then return (arguments, .file (← expr true fuel))
  else if ← took ">>" then return (arguments, .append (← expr true fuel))
  else if ← took "|" then return (arguments, .command (← expr true fuel))
  else return (arguments, .output)

/-- The end of a statement; a closing brace ends it too. -/
def statementEnd : Reading Unit := do
  match ← peek with
  | .sign ";" | .lineEnd => advance
  | .sign "\x7d" => return ()
  | _ => refuse

def inLoop (m : Reading α) : Reading α := do
  modify fun r => { r with loops := r.loops + 1 }
  let a ← m
  modify fun r => { r with loops := r.loops - 1 }
  return a

def insideLoop (what : String) (s : Statement) : Reading Statement := do
  let n ← line
  advance
  if (← get).loops = 0 then failAt n (what ++ " statement outside of loop")
  return s

def insideRecords (what : String) (s : Statement) : Reading Statement := do
  let n ← line
  advance
  if !(← get).forRecords then failAt n ("improper use of " ++ what)
  return s

def optionalExpr (fuel : Nat) : Reading (Option Expr) := do
  match ← peek with
  | .sign ";" | .sign "\x7d" | .sign ")" | .lineEnd | .finish => return none
  | _ => return some (← expr false fuel)

/-- A statement that ends with its line. -/
def plainStatement (fuel : Nat) : Reading Statement := do
  match ← peek with
  | .keyword "print" =>
    advance
    let (arguments, destination) ← printing fuel
    return .print arguments destination
  | .keyword "printf" => do
    let n ← line
    advance
    let (arguments, destination) ← printing fuel
    if arguments.isEmpty then failAt n "no arguments in call to printf"
    return .printf arguments destination
  | .keyword "break" => insideLoop "break" .break_
  | .keyword "continue" => insideLoop "continue" .continue_
  | .keyword "next" => insideRecords "next" .next
  | .keyword "nextfile" => insideRecords "nextfile" .nextFile
  | .keyword "exit" =>
    advance
    return .exit (← optionalExpr fuel)
  | .keyword "return" => do
    let n ← line
    advance
    if !(← get).inFunction then failAt n "return outside function body"
    return .return_ (← optionalExpr fuel)
  | .keyword "delete" => do
    advance
    match ← peek with
    | .name table => do
      noteKind table true
      advance
      if ← took "[" then
        let index ← exprs fuel
        sign "]"
        return .delete table (some index)
      else return .delete table none
    | _ => refuse
  | _ => return .expr (← expr false fuel)

/-- The head of a loop over a table, if that is what follows. -/
def tableLoop? : Reading (Option (String × String)) := do
  match ((← get).rest.map Lexeme.token).take 5 with
  | [.sign "(", .name v, .keyword "in", .name table, .sign ")"] => do
    modify fun r => { r with rest := r.rest.drop 5 }
    noteKind v false
    noteKind table true
    return some (v, table)
  | _ => return none

mutual
def statement : Nat → Reading Statement
  | 0 => refuse
  | fuel + 1 => do
    match ← peek with
    | .sign "\x7b" => block fuel
    | .sign ";" | .lineEnd =>
      advance
      return .nothing
    | .keyword "if" => do
      advance
      opened
      let condition ← expr false fuel
      closed
      skipLineEnds fuel
      let a ← statement fuel
      if ← isKeyword "else" then
        advance
        return .choose condition a (some (← statement fuel))
      else return .choose condition a none
    | .keyword "while" => do
      advance
      opened
      let condition ← expr false fuel
      closed
      if ← took ";" then return .while_ condition .nothing
      skipLineEnds fuel
      return .while_ condition (← inLoop (statement fuel))
    | .keyword "do" => do
      advance
      let body ← inLoop (statement fuel)
      if !(← isKeyword "while") then refuse
      advance
      opened
      let condition ← expr false fuel
      closed
      statementEnd
      return .doWhile body condition
    | .keyword "for" => do
      advance
      match ← tableLoop? with
      | some (v, table) =>
        skipLineEnds fuel
        return .each v table (← inLoop (statement fuel))
      | none =>
        opened
        let start ← optionalExpr fuel
        sign ";"
        let condition ← optionalExpr fuel
        sign ";"
        let step ← optionalExpr fuel
        closed
        if ← took ";" then return .loop start condition step .nothing
        skipLineEnds fuel
        return .loop start condition step (← inLoop (statement fuel))
    | _ => do
      let s ← plainStatement fuel
      statementEnd
      return s

def block : Nat → Reading Statement
  | 0 => refuse
  | fuel + 1 => do
    sign "\x7b"
    modify fun r => { r with braces := r.braces + 1 }
    let body ← statements fuel
    sign "\x7d"
    modify fun r => { r with braces := r.braces - 1 }
    return .block body

def statements : Nat → Reading (List Statement)
  | 0 => refuse
  | fuel + 1 => do
    if ← isSign "\x7d" then return []
    else
      let s ← statement fuel
      return s :: (← statements fuel)
end

/-! Rules and functions. -/

def parameters : Nat → Reading (List String)
  | 0 => refuse
  | fuel + 1 => do
    match ← peek with
    | .name s => do
      advance
      if ← took "," then
        let others ← parameters fuel
        if others.contains s then failAt (← line) (s ++ " is duplicated in argument list")
        return s :: others
      else return [s]
    | .sign ")" => return []
    | _ => refuse

/-- A function: its parameters hide other names while its body is read. -/
def function (fuel : Nat) : Reading Function := do
  advance
  let name ← match ← peek with
    | .name s | .function s => pure s
    | _ => refuse
  let r ← get
  if (r.functions.lookup name).isSome then failAt (← line) ("redefinition of " ++ name)
  if (r.kinds.lookup name).isSome then failAt (← line) ("illegal reference to variable " ++ name)
  advance
  opened
  let names ← parameters fuel
  closed
  skipLineEnds fuel
  modify fun r => { r with
    functions := r.functions ++ [(name, names)]
    kinds := r.kinds.filter fun k => !names.contains k.1
    inFunction := true
    forRecords := false }
  let body ← block fuel
  modify fun s => { s with
    inFunction := false
    kinds := (s.kinds.filter fun k => !names.contains k.1) ++
      r.kinds.filter fun k => names.contains k.1 }
  return ⟨name, names, body⟩

def rule (fuel : Nat) : Reading Rule := do
  let setRecords := fun (b : Bool) => modify fun (r : Reader) => { r with forRecords := b }
  match ← peek with
  | .keyword "BEGIN" =>
    advance
    setRecords false
    return .start (← block fuel)
  | .keyword "END" =>
    advance
    setRecords false
    return .finish (← block fuel)
  | .sign "\x7b" =>
    setRecords true
    return .records none (← block fuel)
  | _ => do
    setRecords true
    let first ← expr false fuel
    let last ← if ← took "," then pure (some (← expr false fuel)) else pure none
    let body ← if ← isSign "\x7b" then block fuel else do
      match ← peek with
      | .sign ";" | .lineEnd | .finish => pure (.print [] .output)
      | _ => refuse
    match last with
    | none => return .records (some first) body
    | some last => return .range first last body

def script : Nat → Script → Reading Script
  | 0, s => return s
  | fuel + 1, s => do
    match ← peek with
    | .lineEnd | .sign ";" => do
      advance
      script fuel s
    | .finish => return s
    | .keyword "function" => do
      let f ← function fuel
      script fuel { s with functions := s.functions ++ [f] }
    | _ => do
      let r ← rule fuel
      script fuel { s with rules := s.rules ++ [r] }

/-- The script that a text holds, or what is wrong with it. -/
def readScript (source : String) : Except (List String) Script := do
  let lexemes := Token.ofScript source
  let fuel := 40 * lexemes.length + 200
  let (s, r) ← (script fuel ⟨[], []⟩).run
    { rest := lexemes, parentheses := 0, braces := 0, loops := 0, inFunction := false,
      forRecords := true, kinds := [], functions := [], calls := [] }
  r.calls.forM fun (name, count, line) => match r.functions.lookup name with
    | none => throw ["line " ++ toString ((lexemes.getLast?.map Lexeme.line).getD 1) ++
        ": function " ++ name ++ " never defined"]
    | some names =>
      if names.length < count then
        throw ["line " ++ toString line ++ ": too many arguments in call to " ++ name]
      else pure ()
  return s

end Reading

end SchemaDecl.Shell.Awk
