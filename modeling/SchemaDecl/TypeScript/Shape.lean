import SchemaDecl.Json.Fields

/-! What the compiler reads off a node: the names in its `type`, its properties
and which of them are required, and which of its keywords decide alone. -/

namespace SchemaDecl.TypeScript

def requiredNames (fields : Fields) : List String :=
  match Fields.value fields "required" with
  | .arr names => names.filterMap fun
    | .str name => some name
    | _ => none
  | _ => []

def isRequired (fields : Fields) : Key → Bool
  | .str name => (requiredNames fields).contains name
  | _ => false

def propertiesOf (fields : Fields) : Fields :=
  match Fields.value fields "properties" with
  | .obj properties => properties
  | _ => []

/-- Names in `type`; without it a node with properties is an object and any other an array. -/
def typeNames (fields : Fields) : List Json :=
  match Fields.value fields "type" with
  | .null => if Fields.contains fields "properties" then [.str "object"] else [.str "array"]
  | .arr names => names
  | name => [name]

def combinatorJoins : List (Key × String) := [("oneOf", " | "), ("anyOf", " | "), ("allOf", " & ")]

def hasStructure (fields : Fields) : Bool :=
  ["type", "properties", "items"].any fun key => Fields.contains fields (.str key)

/-- Whether one keyword says what the type is and the structure below it does not count. -/
def decidesAlone (fields : Fields) : Bool :=
  (Fields.value fields "__is_any__").truthy ||
  ["tsType", "const", "enum"].any fun key => Fields.contains fields (.str key)

def fieldsOf : Json → Fields
  | .obj fields => fields
  | _ => []

/-- Whether the root can be declared as an interface. -/
def isInterface : Json → Bool
  | .obj fields =>
    !(Fields.value fields "__is_any__").truthy &&
    !(["tsType", "enum", "const", "oneOf", "anyOf", "allOf"].any fun key =>
      Fields.contains fields (.str key)) &&
    (match Fields.get? fields "type" with
      | some type => type = .str "object"
      | none => Fields.contains fields "properties")
  | _ => false

end SchemaDecl.TypeScript
