import SchemaDecl.Shell.Regex
import SchemaDecl.Shell.Programs.Plain

/-! Conditions in double brackets. A comparison for equality takes its right side as
a pattern, and a regular expression can be searched for; unquoted conjunctions
join conditions, and the right side of one is left alone if the left side
decides. -/

namespace SchemaDecl.Shell.Brackets

/-- A word with what is protected in it, and whether it was written without quotes. -/
structure Operand where
  text : String
  marks : List Marked
  plain : Bool

abbrev Step := Except Condition.Fault (Bool × List Operand)

def isPlain (o : Operand) (text : String) : Bool := o.plain && o.text = text

def expressionOf (o : Operand) : String :=
  String.join (o.marks.map fun (c, protected_) =>
    if protected_ && !c.isAlphanum then String.ofList ['\\', c] else String.singleton c)

def isComparison (setting : Condition.Setting) (o : Operand) : Bool :=
  o.plain && (o.text = "=~" || Condition.isComparison setting o.text)

def compare (setting : Condition.Setting) (a o b : Operand) : Except Condition.Fault Bool :=
  match o.text with
  | "=" | "==" => .ok ((toPattern b.marks).matchesAll a.text.toList)
  | "!=" => .ok (!(toPattern b.marks).matchesAll a.text.toList)
  | "=~" => match Regex.read Regex.extended (characters (expressionOf b)) with
    | .ok r => .ok (Regex.occurs false r (characters a.text))
    | .error _ => .ok false
  | o => Condition.compare setting o a.text b.text

mutual
def either (setting : Condition.Setting) : Nat → List Operand → Step
  | 0, ws => .ok (false, ws)
  | fuel + 1, ws => do
    let (value, ws) ← both setting fuel ws
    match ws with
    | o :: rest =>
      if isPlain o "||" then
        let (other, ws) ← either setting fuel rest
        return (value || other, ws)
      else return (value, ws)
    | [] => return (value, [])

def both (setting : Condition.Setting) : Nat → List Operand → Step
  | 0, ws => .ok (false, ws)
  | fuel + 1, ws => do
    let (value, ws) ← single setting fuel ws
    match ws with
    | o :: rest =>
      if isPlain o "&&" then
        let (other, ws) ← both setting fuel rest
        return (value && other, ws)
      else return (value, ws)
    | [] => return (value, [])

def single (setting : Condition.Setting) : Nat → List Operand → Step
  | 0, ws => .ok (false, ws)
  | fuel + 1, ws =>
    match ws with
    | [] => .ok (false, [])
    | a :: rest =>
      if isPlain a "!" then do
        let (value, ws) ← single setting fuel rest
        return (!value, ws)
      else if isPlain a "(" then do
        let (value, ws) ← either setting fuel rest
        return (value, ws.drop 1)
      else match rest with
        | o :: b :: after =>
          if isComparison setting o then do return (← compare setting a o b, after)
          else if a.plain && Condition.questions.contains a.text then
            .ok (Condition.answer setting a.text o.text, b :: after)
          else .ok (!a.text.isEmpty, rest)
        | [b] =>
          if a.plain && Condition.questions.contains a.text then
            .ok (Condition.answer setting a.text b.text, [])
          else .ok (!a.text.isEmpty, rest)
        | [] => .ok (!a.text.isEmpty, [])
end

def holds (setting : Condition.Setting) (ws : List Operand) : Except Condition.Fault Bool := do
  return (← either setting (4 * ws.length + 4) ws).1

end SchemaDecl.Shell.Brackets
