import SchemaDecl.Json.Display
import SchemaDecl.Text.Replace
import SchemaDecl.TypeScript.Composite

/-! Texts of types and the ways to combine them. A type that a schema author
wrote is printed as it stands, and where it is no text it is carried along as
the value it is: it can stand alone, but it can be neither joined with another
type nor, with one exception, be made the element of an array. The exception is
a container whose entries, read as characters, look like a union. -/

namespace SchemaDecl.TypeScript

inductive TypeText
  | text (type : String)
  | verbatim (value : Json)
  deriving DecidableEq

/-- A type was no text where only text will do. -/
structure TypeFault where
  value : Json
  deriving DecidableEq

namespace TypeText

def ofJson : Json → TypeText
  | .str s => .text s
  | value => .verbatim value

def toJson : TypeText → Json
  | .text s => .str s
  | .verbatim value => value

def display (t : TypeText) : String := t.toJson.display

def text? : TypeText → Except TypeFault String
  | .text s => .ok s
  | .verbatim value => .error ⟨value⟩

def key? (t : TypeText) : Except TypeFault Key :=
  match t.toJson.toKey? with
  | some key => .ok key
  | none => .error ⟨t.toJson⟩

/-- The first of each group of equal keys, in order. -/
def distinct (keys : List Key) : List Key :=
  keys.foldl (fun seen key => if seen.any (·.same key) then seen else seen ++ [key]) []

/-- Joins the distinct ones of the types; a single one is left as it is. -/
def join (separator : String) (types : List TypeText) : Except TypeFault TypeText := do
  match distinct (← types.mapM key?) with
  | [] => return .text "unknown"
  | [key] => return ofJson key.toJson
  | keys =>
    let texts ← keys.mapM fun key => text? (ofJson key.toJson)
    return .text (String.intercalate separator (texts.map parenthesize))

def tuple (types : List TypeText) : Except TypeFault String := do
  return "[" ++ String.intercalate ", " (← types.mapM text?) ++ "]"

/-- The scan of `Scan`, over entries that need not be single characters. -/
structure EntryScan where
  depth : Int
  quote : String
  escaped : Bool

def scanEntries (whole : Json) : EntryScan → List Json → Except TypeFault Bool
  | _, [] => .ok false
  | s, entry :: rest =>
    if !s.quote.isEmpty then
      if s.escaped then scanEntries whole { s with escaped := false } rest
      else if entry = .str "\\" then scanEntries whole { s with escaped := true } rest
      else if entry = .str s.quote then scanEntries whole { s with quote := "" } rest
      else scanEntries whole s rest
    else match entry with
      | .str e =>
        let within := fun (set : String) => Text.contains e set
        if within "\"'" then scanEntries whole { s with quote := e } rest
        else if within "([\x7b<" then scanEntries whole { s with depth := s.depth + 1 } rest
        else if within ")]\x7d>" then scanEntries whole { s with depth := s.depth - 1 } rest
        else if within "|&" && s.depth = 0 then .ok true
        else scanEntries whole s rest
      | _ => .error ⟨whole⟩

def entries? : Json → Except TypeFault (List Json)
  | .arr items => .ok items
  | .obj fields => .ok (fields.map fun f => f.1.toJson)
  | value => .error ⟨value⟩

def arrayOf : TypeText → Except TypeFault String
  | .text s => .ok (parenthesize s ++ "[]")
  | .verbatim value => do
    if ← scanEntries value ⟨0, "", false⟩ (← entries? value) then
      return "(" ++ value.display ++ ")[]"
    else throw ⟨value⟩

def undefinedSuffix : String := " | undefined"

/-- The entries that a list takes when `undefined` is added to it: one for each character. -/
def undefinedEntries : List Json :=
  undefinedSuffix.toList.map fun c => .str (String.singleton c)

def orUndefined : TypeText → Except TypeFault TypeText
  | .text s => .ok (.text (s ++ undefinedSuffix))
  | .verbatim (.arr items) => .ok (.verbatim (.arr (items ++ undefinedEntries)))
  | .verbatim value => .error ⟨value⟩

end TypeText

end SchemaDecl.TypeScript
