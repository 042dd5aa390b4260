import SchemaDecl.TypeScript.Options
import SchemaDecl.TypeScript.Shape
import SchemaDecl.TypeScript.TypeText

/-! Types that grow. A type given as a list belongs to the schema, and adding
`undefined` to it under a strict index signature adds to that list: every time
the signature is written the list is longer than before. `leftAfter` is the
schema as it stands after it was rendered. A node whose `type` repeats a name is
rendered once for each of them, so it can meet its own list again. -/

namespace SchemaDecl.TypeScript

/-- A node whose type is a list takes the added entries into that list. -/
def takeUndefined (node : Fields) : Fields :=
  match Fields.value node "tsType" with
  | .arr entries => Fields.set node "tsType" (.arr (entries ++ TypeText.undefinedEntries))
  | _ => node

/-- Changes the value of a field if it is there and is an object. -/
def mapObject (fields : Fields) (key : Key) (f : Fields → Fields) : Fields :=
  match Fields.value fields key with
  | .obj inner => Fields.set fields key (.obj (f inner))
  | _ => fields

/-- Changes the entries of a field if it is there and is a list. -/
def mapList (fields : Fields) (key : Key) (f : Json → Json) : Fields :=
  match Fields.value fields key with
  | .arr entries => Fields.set fields key (.arr (entries.map f))
  | _ => fields

section
variable (grow : Json → Json)

def growFields (fields : Fields) : Fields := fieldsOf (grow (.obj fields))

def growObject (fields : Fields) : Fields :=
  let fields := mapObject fields "properties" fun properties =>
    properties.map fun p => (p.1, grow p.2)
  mapObject fields "additionalProperties" fun node => takeUndefined (growFields grow node)

def growArray (fields : Fields) : Fields :=
  mapObject (mapList fields "items" grow) "items" (growFields grow)

/-- The node after it was rendered under one of the names in its `type`. -/
def growAs (fields : Fields) : Json → Fields
  | .str "object" => growObject grow fields
  | .str "array" => growArray grow fields
  | _ => fields

def growNode : Json → Json
  | .obj fields =>
    if decidesAlone fields then .obj fields
    else
      let names := if hasStructure fields then typeNames fields else []
      let fields := names.foldl (growAs grow) fields
      .obj (combinatorJoins.foldl (fun fields c => mapList fields c.1 grow) fields)
  | node => node
end

def grown : Nat → Json → Json
  | 0 => id
  | levels + 1 => growNode (grown levels)

/-- The schema after it was rendered; nothing grows unless index signatures are strict. -/
def leftAfter (options : Options) (schema : Json) : Json :=
  if options.strictIndexSignatures then grown schema.depth schema else schema

end SchemaDecl.TypeScript
