import SchemaDecl.Text.Replace

/-! The check that generated code passes before it is written: it exports
something, and outside comments and quoted strings it opens as many braces as it
closes. A comment or string that is never closed does not count as one, and its
first character is looked at like any other. -/

namespace SchemaDecl.TypeScript.OutputCheck

inductive Fault
  | noExports
  | unbalanced (opened closed : Nat)
  deriving DecidableEq

def Fault.message : Fault → String
  | .noExports => "Generated TypeScript code has no exported declarations"
  | .unbalanced opened closed =>
    "Generated TypeScript code has unbalanced braces: " ++ toString opened ++ " open, " ++
      toString closed ++ " close"

/-- The text after the end of a block comment. -/
def afterComment? : List Char → Option (List Char)
  | [] => none
  | '*' :: '/' :: rest => some rest
  | _ :: rest => afterComment? rest

/-- The text after the closing quote. -/
def afterQuote? (quote : Char) : List Char → Option (List Char)
  | [] => none
  | '\\' :: _ :: rest => afterQuote? quote rest
  | c :: rest =>
    if c = '\\' then none else if c = quote then some rest else afterQuote? quote rest

/-- The text after a comment or string at the start, if there is one. -/
def afterToken? : List Char → Option (List Char)
  | '/' :: '*' :: rest => afterComment? rest
  | '/' :: '/' :: rest => some (rest.dropWhile (· != '\n'))
  | '\'' :: rest => afterQuote? '\'' rest
  | '"' :: rest => afterQuote? '"' rest
  | _ => none

def codeOf : Nat → List Char → List Char
  | 0, _ => []
  | _, [] => []
  | fuel + 1, c :: rest => match afterToken? (c :: rest) with
    | some rest => codeOf fuel rest
    | none => c :: codeOf fuel rest

/-- Code without comments and strings; every step takes at least one character. -/
def code (cs : List Char) : List Char := codeOf cs.length cs

def check (content : String) : Except Fault Unit :=
  if !Text.contains "export " content then .error .noExports
  else
    let code := code content.toList
    let opened := code.count '\x7b'
    let closed := code.count '\x7d'
    if opened = closed then .ok () else .error (.unbalanced opened closed)

end SchemaDecl.TypeScript.OutputCheck
