/-! Commands of the shell and the words in them. A word is a list of parts, each
of them quoted or not: what is not quoted is split into fields and can match
names of files after it was expanded. Here documents are kept apart and named by
a number, because their text follows the line of the command. -/

namespace SchemaDecl.Shell

/-- What is done with the value of a parameter. With a colon an empty value counts as missing. -/
inductive Operator
  | value
  | length
  | default (colon : Bool)
  | assign (colon : Bool)
  | require (colon : Bool)
  | alternative (colon : Bool)
  | dropEnd (longest : Bool)
  | dropStart (longest : Bool)
  | replace (everywhere : Bool)
  | slice
  | upper (everywhere : Bool)
  | lower (everywhere : Bool)
  | invalid
  deriving DecidableEq

inductive FileMode
  | read
  | write
  /-- Writes also where files are to be kept. -/
  | overwrite
  | append
  | readWrite
  deriving DecidableEq

mutual
inductive Part
  | text (quoted : Bool) (text : String)
  | parameter (quoted : Bool) (name : String) (operator : Operator) (operand second : List Part)
  | substitution (quoted : Bool) (body : List Command)
  | arithmetic (quoted : Bool) (expression : List Part)

inductive Redirection
  | file (descriptor : Nat) (mode : FileMode) (target : List Part)
  | duplicate (descriptor : Nat) (target : List Part)
  | document (descriptor : Nat) (id : Nat)
  | literal (descriptor : Nat) (word : List Part)
  | everything (mode : FileMode) (target : List Part)

inductive Command
  | simple (line : Nat) (assignments : List (String × List Part)) (words : List (List Part))
      (redirections : List Redirection)
  | pipeline (stages : List Command)
  | negated (command : Command)
  | both (first second : Command)
  | either (first second : Command)
  | sequence (commands : List Command)
  | background (command : Command)
  | subshell (body : List Command)
  | redirected (line : Nat) (command : Command) (redirections : List Redirection)
  | branch (condition yes no : List Command)
  | loop (untilTrue : Bool) (condition body : List Command)
  | iterate (line : Nat) (name : String) (words : Option (List (List Part))) (body : List Command)
  | choose (line : Nat) (word : List Part) (cases : List (List (List Part) × List Command))
  | define (name : String) (body : Command)
  | condition (line : Nat) (words : List (List Part))
  | calculation (line : Nat) (expression : List Part)
end

instance : Inhabited Part := ⟨.text false ""⟩

instance : Inhabited Command := ⟨.sequence []⟩

/-- Text of a here document, and whether it is expanded. -/
structure Document where
  text : String
  expanded : Bool

end SchemaDecl.Shell
