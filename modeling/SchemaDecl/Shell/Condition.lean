import SchemaDecl.Shell.Bytes

/-! The conditions of `test`. The words are read from the left: alternatives of
conjunctions of possibly negated primaries. A word counts as a unary operator
only if there is something to apply it to and no binary operator follows it;
three words around a binary operator are a comparison whatever they are. What
files are like is asked from outside. -/

namespace SchemaDecl.Shell.Condition

inductive Fault
  | unexpected (word : String)
  | argumentMissing (operator : String)
  | parenthesisMissing
  | illegalNumber (word : String)

def Fault.message : Fault → String
  | .unexpected word => word ++ ": unexpected operator"
  | .argumentMissing operator => operator ++ ": argument expected"
  | .parenthesisMissing => "closing paren expected"
  | .illegalNumber word => "Illegal number: " ++ word

def comparisons (extended : Bool) : List String :=
  ["=", "!=", "<", ">", "-eq", "-ne", "-gt", "-ge", "-lt", "-le", "-nt", "-ot", "-ef"] ++
    if extended then ["=="] else []

def questions : List String :=
  ["-r", "-w", "-x", "-f", "-d", "-c", "-b", "-p", "-u", "-g", "-k", "-s", "-t", "-z", "-n", "-h",
    "-O", "-G", "-L", "-S", "-e"]

structure Setting where
  extended : Bool
  /-- Whether a file question about a path, or a comparison of two files, is answered with yes. -/
  file : String → String → Bool
  files : String → String → String → Bool

def isComparison (s : Setting) (w : String) : Bool := (comparisons s.extended).contains w

inductive Word
  | finished
  | operand
  | question
  | comparison
  | negation
  | conjunction
  | disjunction
  | opening
  | closing
  deriving DecidableEq

/-- Whether a question stands for itself, with these words after it. -/
def isOperand (s : Setting) : List String → Bool
  | [] => true
  | [_] => false
  | w :: _ :: _ => isComparison s w

/-- What the first word is. -/
def wordAt (s : Setting) : List String → Word
  | [] => .finished
  | w :: rest =>
    if questions.contains w then if isOperand s rest then .operand else .question
    else if isComparison s w then .comparison
    else if w = "!" then .negation
    else if w = "-a" then .conjunction
    else if w = "-o" then .disjunction
    else if w = "(" then if rest.isEmpty then .operand else .opening
    else if w = ")" then .closing
    else .operand

def number (w : String) : Except Fault Int :=
  match integer? w with
  | some n => .ok n
  | none => .error (.illegalNumber w)

def compare (s : Setting) (o a b : String) : Except Fault Bool :=
  match o with
  | "=" | "==" => .ok (a = b)
  | "!=" => .ok (a != b)
  | "<" => .ok (a < b)
  | ">" => .ok (b < a)
  | "-eq" => do return (← number a) = (← number b)
  | "-ne" => do return (← number a) != (← number b)
  | "-gt" => do return (← number b) < (← number a)
  | "-ge" => do return (← number b) ≤ (← number a)
  | "-lt" => do return (← number a) < (← number b)
  | "-le" => do return (← number a) ≤ (← number b)
  | o => .ok (s.files o a b)

def answer (s : Setting) (question word : String) : Bool :=
  match question with
  | "-z" => word.isEmpty
  | "-n" => !word.isEmpty
  | question => s.file question word

/-- A truth value and the words from the last one that was taken. -/
abbrev Step := Except Fault (Bool × List String)

/-- The words begin with the one that is looked at; each step leaves the last word it took at
the front. -/
def primaryWith (disjunction : List String → Step) (s : Setting) (ws : List String) : Step :=
  match wordAt s ws, ws with
  | .finished, _ => .ok (false, ws)
  | .opening, _ :: rest =>
    if wordAt s rest = .closing then .ok (false, rest)
    else do
      let (value, ws) ← disjunction rest
      let rest := ws.drop 1
      if wordAt s rest = .closing then return (value, rest) else throw .parenthesisMissing
  | .question, question :: rest => match rest with
    | [] => .error (.argumentMissing question)
    | w :: _ => .ok (answer s question w, rest)
  | _, a :: rest =>
    if wordAt s rest = .comparison then match rest with
      | o :: b :: after => do return (← compare s o a b, b :: after)
      | o :: [] => .error (.argumentMissing o)
      | [] => .ok (!a.isEmpty, ws)
    else .ok (!a.isEmpty, ws)
  | _, [] => .ok (false, ws)

mutual
def disjunction (s : Setting) : Nat → List String → Step
  | 0, ws => .ok (false, ws)
  | fuel + 1, ws => do
    let (value, ws) ← conjunction s fuel ws
    if wordAt s (ws.drop 1) = .disjunction then
      let (other, ws) ← disjunction s fuel (ws.drop 2)
      return (value || other, ws)
    else return (value, ws)

def conjunction (s : Setting) : Nat → List String → Step
  | 0, ws => .ok (false, ws)
  | fuel + 1, ws => do
    let (value, ws) ← negation s fuel ws
    if wordAt s (ws.drop 1) = .conjunction then
      let (other, ws) ← conjunction s fuel (ws.drop 2)
      return (value && other, ws)
    else return (value, ws)

def negation (s : Setting) : Nat → List String → Step
  | 0, ws => .ok (false, ws)
  | fuel + 1, ws =>
    if wordAt s ws = .negation then do
      let rest := ws.drop 1
      if rest.isEmpty then return (true, ws)
      let (value, ws) ← negation s fuel rest
      return (!value, ws)
    else primaryWith (disjunction s fuel) s ws
end

/-- A condition that takes up all words. -/
def whole (s : Setting) (ws : List String) : Except Fault Bool := do
  let (value, ws) ← disjunction s (4 * ws.length + 4) ws
  match ws with
  | w :: _ :: _ => throw (.unexpected w)
  | _ => return value

/-- A few words are first looked at as a comparison, then for parentheses and a negation. -/
def holds (s : Setting) (ws : List String) : Except Fault Bool :=
  match ws with
  | [] => .ok false
  | [a, b, c] =>
    if isComparison s b then compare s b a c
    else if a = "(" && c = ")" then whole s [b]
    else if a = "!" then do return !(← whole s [b, c])
    else whole s ws
  | [a, b, c, d] =>
    if a = "(" && d = ")" then whole s [b, c]
    else if a = "!" then do return !(← holds s [b, c, d])
    else whole s ws
  | _ => whole s ws

end SchemaDecl.Shell.Condition
