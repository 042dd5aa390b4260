/-! Whether a type text is a union or an intersection at its top level. The text
is scanned once: brackets count a nesting depth, which may become negative,
quoted parts are passed over with backslash escapes, and `|` or `&` at depth
zero decides. Operators take part in a larger type only in parentheses. -/

namespace SchemaDecl.TypeScript

/-- The scan inside a quoted part (`quote`, perhaps just after a backslash) or outside. -/
structure Scan where
  depth : Int
  quote : Option Char
  escaped : Bool
  found : Bool
  deriving DecidableEq

namespace Scan

def start : Scan := ⟨0, none, false, false⟩

def isOpening (c : Char) : Bool := c = '(' || c = '[' || c = '\x7b' || c = '<'

def isClosing (c : Char) : Bool := c = ')' || c = ']' || c = '\x7d' || c = '>'

def isOperator (c : Char) : Bool := c = '|' || c = '&'

def isQuote (c : Char) : Bool := c = '"' || c = '\''

def step (s : Scan) (c : Char) : Scan :=
  if s.found then s
  else match s.quote with
    | some q =>
      if s.escaped then { s with escaped := false }
      else if c = '\\' then { s with escaped := true }
      else if c = q then { s with quote := none }
      else s
    | none =>
      if isQuote c then { s with quote := some c }
      else if isOpening c then { s with depth := s.depth + 1 }
      else if isClosing c then { s with depth := s.depth - 1 }
      else if isOperator c && s.depth = 0 then { s with found := true }
      else s

def run (s : Scan) (cs : List Char) : Scan := cs.foldl step s

theorem run_append (s : Scan) (a b : List Char) : s.run (a ++ b) = (s.run a).run b := by
  simp [run]

theorem run_of_found {s : Scan} (h : s.found = true) (cs : List Char) : s.run cs = s := by
  induction cs with
  | nil => rfl
  | cons c cs ih => simpa [run, step, h] using ih

end Scan

def isComposite (type : String) : Bool := (Scan.start.run type.toList).found

def parenthesize (type : String) : String := if isComposite type then "(" ++ type ++ ")" else type

end SchemaDecl.TypeScript
