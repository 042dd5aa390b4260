import SchemaDecl.Event
import SchemaDecl.Json.Fields
import SchemaDecl.Json.Printer
import SchemaDecl.Name.Identifier
import SchemaDecl.TypeScript.Comment
import SchemaDecl.TypeScript.Declaration
import SchemaDecl.TypeScript.Growth
import SchemaDecl.TypeScript.MemberName

/-! Types of schema nodes. Every piece is written over a renderer for the nodes
below, and `render` ties the knot with one level more for each level of the
tree; a node without levels is a scalar and has no known type. An enum with
member names is declared on the side under a name that is not taken: the name
of the property that holds it, or that name with the first free number from two
on. As only `taken.length` numbers can be taken, the search always ends inside
its range. -/

namespace SchemaDecl.TypeScript

structure RenderState where
  enums : List EnumDeclaration
  taken : List String
  events : List Event
  deriving DecidableEq

/-- Effects before a fault stay in the state. -/
abbrev RenderM := ExceptT TypeFault (StateM RenderState)

/-- Type of a node at a nesting depth, with the name for an enum declared for it. -/
abbrev Renderer := Json → Nat → String → RenderM TypeText

def literal (value : Json) : String := value.print

def primitive? : String → Option String
  | "string" => some "string"
  | "integer" => some "number"
  | "number" => some "number"
  | "boolean" => some "boolean"
  | "null" => some "null"
  | "any" => some "any"
  | _ => none

def indentation (options : Options) (depth : Nat) : String :=
  String.join (List.replicate depth options.indent)

/-! Names of enums. -/

def numbered (base : String) (n : Nat) : String := if n = 1 then base else base ++ toString n

def seekName (taken : List String) (base : String) : Nat → Nat → Option String
  | 0, _ => none
  | fuel + 1, n =>
    if taken.contains (numbered base n) then seekName taken base fuel (n + 1)
    else some (numbered base n)

def freshName (taken : List String) (base : String) : String :=
  (seekName taken base (taken.length + 1) 1).getD base

def enumMembers (names values : List Json) : List (String × String) :=
  List.zipWith (fun name value => (memberName name.display, literal value)) names values

def declareEnum (hint : String) (names values : List Json) : RenderM String := do
  let state ← get
  let name := freshName state.taken (Name.toIdentifier hint)
  set { state with
    taken := name :: state.taken
    enums := state.enums ++ [EnumDeclaration.mk name (enumMembers names values)] }
  return name

/-- What a property is called when it gives its name to an enum. -/
def hintOf : Key → String
  | .null => "Enum"
  | key => key.display

/-! Pieces of a type. -/

def renderEnum (fields : Fields) (hint : String) : RenderM TypeText := do
  let values := match Fields.value fields "enum" with
    | .arr values => values
    | _ => []
  let names := match Fields.value fields "tsEnumNames" with
    | .arr names => names
    | _ => []
  if values.isEmpty then return .text "never"
  else if names.length = values.length then return .text (← declareEnum hint names values)
  else (TypeText.join " | " (values.map fun value => .text (literal value)) : Except _ _)

def renderArray (renderer : Renderer) (fields : Fields) (depth : Nat) (hint : String) :
    RenderM String := do
  match Fields.value fields "items" with
  | .arr [] => return "unknown[]"
  | .arr items =>
    let types ← items.mapM fun item => renderer item depth hint
    (TypeText.tuple types : Except _ _)
  | .obj item =>
    let type ← renderer (.obj item) depth hint
    (TypeText.arrayOf type : Except _ _)
  | _ => return "unknown[]"

def commentOf? (indent : String) : Json → Option String
  | .str text => comment? indent text
  | _ => none

/-- The comment above a member, if there is one, and the member. -/
def renderProperty (options : Options) (renderer : Renderer) (fields : Fields) (depth : Nat)
    (property : Key × Json) : RenderM (List String) := do
  let indent := indentation options (depth + 1)
  let comment := match property.2 with
    | .obj node => commentOf? indent (Fields.value node "description")
    | _ => none
  let mark := if isRequired fields property.1 then "" else "?"
  let type ← renderer property.2 (depth + 1) (hintOf property.1)
  return comment.toList ++
    [indent ++ memberName property.1.display ++ mark ++ ": " ++ type.display ++ ";"]

def renderIndexSignature (options : Options) (renderer : Renderer) (fields : Fields)
    (depth : Nat) : RenderM (List String) := do
  match (Fields.get? fields "additionalProperties").getD (.bool true) with
  | .bool false => return []
  | additional =>
    let type ← match additional with
      | .obj _ => renderer additional (depth + 1) "Enum"
      | _ => pure (.text "unknown")
    let type ← if options.strictIndexSignatures then (type.orUndefined : Except _ _) else pure type
    return [indentation options (depth + 1) ++ "[k: string]: " ++ type.display ++ ";"]

def objectText (options : Options) (depth : Nat) (members : List String) : String :=
  if members.isEmpty then "\x7b\x7d"
  else "\x7b\n" ++ String.intercalate "\n" members ++ "\n" ++ indentation options depth ++ "\x7d"

def renderObject (options : Options) (renderer : Renderer) (fields : Fields) (depth : Nat) :
    RenderM String := do
  let members ← (propertiesOf fields).mapM (renderProperty options renderer fields depth)
  let signature ← renderIndexSignature options renderer fields depth
  return objectText options depth (members.flatten ++ signature)

def renderTypeName (options : Options) (renderer : Renderer) (fields : Fields) (depth : Nat)
    (hint : String) (name : Json) : RenderM TypeText := do
  match name with
  | .str "object" => return .text (← renderObject options renderer fields depth)
  | .str "array" => return .text (← renderArray renderer fields depth hint)
  | name =>
    let known := match name with
      | .str s => primitive? s
      | _ => none
    match known with
    | some type => return .text type
    | none =>
      modify fun state => { state with events := state.events ++ [.unknownType name] }
      return .text "unknown"

/-- A node as the next name in its `type` finds it. -/
def afterName (options : Options) (fields : Fields) (name : Json) : Fields :=
  if options.strictIndexSignatures then growAs (leftAfter options) fields name else fields

def renderNames (options : Options) (renderer : Renderer) (depth : Nat) (hint : String) :
    Fields → List Json → RenderM (List TypeText)
  | _, [] => return []
  | fields, [name] => return [← renderTypeName options renderer fields depth hint name]
  | fields, name :: names => do
    let type ← renderTypeName options renderer fields depth hint name
    let types ← renderNames options renderer depth hint (afterName options fields name) names
    return type :: types

def renderStructural (options : Options) (renderer : Renderer) (fields : Fields) (depth : Nat)
    (hint : String) : RenderM TypeText := do
  let types ← renderNames options renderer depth hint fields (typeNames fields)
  (TypeText.join " | " types : Except _ _)

/-- The joined members of a combinator, if it has any. -/
def renderCombinator (renderer : Renderer) (fields : Fields) (depth : Nat) (hint : String)
    (combinator : Key × String) : RenderM (List TypeText) := do
  match Fields.value fields combinator.1 with
  | .arr [] => return []
  | .arr members =>
    let types ← members.mapM fun member => renderer member depth hint
    return [← (TypeText.join combinator.2 types : Except _ _)]
  | _ => return []

def renderParts (options : Options) (renderer : Renderer) (fields : Fields) (depth : Nat)
    (hint : String) : RenderM TypeText := do
  let own ← if hasStructure fields then
      pure [← renderStructural options renderer fields depth hint]
    else pure []
  let joined ← combinatorJoins.mapM (renderCombinator renderer fields depth hint)
  (TypeText.join " & " (own ++ joined.flatten) : Except _ _)

def renderFields (options : Options) (renderer : Renderer) (fields : Fields) (depth : Nat)
    (hint : String) : RenderM TypeText := do
  match Fields.get? fields "tsType" with
  | some type => return .ofJson type
  | none =>
    if (Fields.value fields "__is_any__").truthy then return .text "any"
    else match Fields.get? fields "const" with
      | some value => return .text (literal value)
      | none =>
        if Fields.contains fields "enum" then renderEnum fields hint
        else renderParts options renderer fields depth hint

def renderNode (options : Options) (renderer : Renderer) : Renderer := fun node depth hint =>
  match node with
  | .obj fields => renderFields options renderer fields depth hint
  | _ => return .text "unknown"

def render (options : Options) : Nat → Renderer
  | 0 => fun _ _ _ => return .text "unknown"
  | levels + 1 => renderNode options (render options levels)

/-! The root. -/

def renderRoot (options : Options) (schema : Json) (name : String) : RenderM RootDeclaration := do
  let comment := commentOf? "" (Fields.value (fieldsOf schema) "description")
  if isInterface schema then
    let body ← renderObject options (render options (schema.depth - 1)) (fieldsOf schema) 0
    return .interface name comment body
  else
    let type ← render options schema.depth schema 0 name
    return .alias name comment type.display

end SchemaDecl.TypeScript
