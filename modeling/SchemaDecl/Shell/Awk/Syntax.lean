import SchemaDecl.Shell.Regex

/-! The language of pattern and action: a program is a list of rules, each of which
says for which records its statements run, and a list of functions. -/

namespace SchemaDecl.Shell.Awk

inductive BinaryOp
  | add
  | subtract
  | multiply
  | divide
  | remainder
  | power

inductive Comparison
  | less
  | lessOrEqual
  | equal
  | notEqual
  | greater
  | greaterOrEqual

/-- Where a line comes from that an expression reads: the main input, a file or a command. -/
inductive LineSource (ε : Type)
  | input
  | file (name : ε)
  | command (text : ε)

inductive Expr
  | number (x : Float)
  | text (s : String)
  | regex (r : Regex)
  | name (name : String)
  | element (array : String) (index : List Expr)
  | field (index : Expr)
  | assign (target value : Expr)
  | update (op : BinaryOp) (target value : Expr)
  /-- A variable that goes up or down by one; its value is the one before or after that. -/
  | step (op : BinaryOp) (after : Bool) (target : Expr)
  | binary (op : BinaryOp) (a b : Expr)
  | compare (c : Comparison) (a b : Expr)
  | matching (negated : Bool) (a pattern : Expr)
  | member (index : List Expr) (array : String)
  | both (a b : Expr)
  | either (a b : Expr)
  | negation (a : Expr)
  | minus (a : Expr)
  | plus (a : Expr)
  | join (a b : Expr)
  | choice (condition a b : Expr)
  | call (function : String) (arguments : List Expr)
  | builtin (function : String) (arguments : List Expr)
  | line (source : LineSource Expr) (target : Option Expr)
  /-- Something between parentheses; several of them stand only before `in` or in a list. -/
  | group (es : List Expr)

/-- Where printing goes. -/
inductive Destination
  | output
  | file (name : Expr)
  | append (name : Expr)
  | command (text : Expr)

inductive Statement
  | nothing
  | expr (e : Expr)
  | print (arguments : List Expr) (destination : Destination)
  | printf (arguments : List Expr) (destination : Destination)
  | block (body : List Statement)
  | choose (condition : Expr) (a : Statement) (b : Option Statement)
  | while_ (condition : Expr) (body : Statement)
  | doWhile (body : Statement) (condition : Expr)
  | loop (start : Option Expr) (condition : Option Expr) (step : Option Expr) (body : Statement)
  | each (name array : String) (body : Statement)
  | break_
  | continue_
  | next
  | nextFile
  | exit (status : Option Expr)
  | return_ (value : Option Expr)
  | delete (array : String) (index : Option (List Expr))

inductive Rule
  | start (body : Statement)
  | finish (body : Statement)
  /-- A rule for the records of which a condition holds, or for all. -/
  | records (condition : Option Expr) (body : Statement)
  /-- A rule for the records from one on up to another one. -/
  | range (first last : Expr) (body : Statement)

structure Function where
  name : String
  parameters : List String
  body : Statement

structure Script where
  rules : List Rule
  functions : List Function

def Expr.isTarget : Expr → Bool
  | .name _ | .element .. | .field _ => true
  | _ => false

end SchemaDecl.Shell.Awk
