import SchemaDecl.Schema.Walk
import SchemaDecl.Schema.TypeNames
import SchemaDecl.Text.Blank

/-! Normal form of an exported schema. On every node the reference leftovers
are dropped, type names become canonical, an array keeps the first of several
item shapes, and property names lose the blanks around them, in `required` as
well. Properties whose names fall together become one, the last of them
counting. -/

namespace SchemaDecl.Schema.Normal

def canonicalType (table : Fields) : Json → Json
  | .arr types => .arr (types.map (TypeNames.canonical table))
  | type => TypeNames.canonical table type

def withCanonicalType (table fields : Fields) : Fields :=
  let type := Fields.value fields "type"
  if type.truthy then Fields.set fields "type" (canonicalType table type) else fields

def withOneItem (fields : Fields) : Fields :=
  match Fields.value fields "type", Fields.value fields "items" with
  | .str "array", .arr (item :: _) => Fields.set fields "items" item
  | _, _ => fields

def stripKey : Key → Key
  | .str s => .str (Text.strip s)
  | key => key

def stripName : Json → Json
  | .str s => .str (Text.strip s)
  | other => other

def stripProperties (properties : Fields) : Fields :=
  Fields.ofList (properties.map fun p => (stripKey p.1, p.2))

def withStrippedRequired (fields : Fields) : Fields :=
  match Fields.value fields "required" with
  | .arr names => Fields.set fields "required" (.arr (names.map stripName))
  | _ => fields

def withStrippedNames (fields : Fields) : Fields :=
  match Fields.value fields "properties" with
  | .obj properties =>
    withStrippedRequired (Fields.set fields "properties" (.obj (stripProperties properties)))
  | _ => fields

def node (table fields : Fields) : Fields :=
  withStrippedNames <| withOneItem <| withCanonicalType table <|
    Fields.eraseAll fields ["$ref", "$$ref"]

def visitor (table : Fields) : Visitor := ⟨fun _ fields => node table fields, 0⟩

def normalize (table : Fields) (schema : Json) : Except FoldFault Json :=
  (traverse (visitor table) [] schema).map Prod.fst

end SchemaDecl.Schema.Normal
