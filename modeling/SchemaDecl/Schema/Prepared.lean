import SchemaDecl.Schema.Reference
import SchemaDecl.TypeScript.IndexedAccess

/-! Schemas prepared for the compiler. A node with a reference becomes an alias
of the type found there, as an indexed access into the root type; the keywords
the compiler would misread are dropped; and a node of type `object` is closed.
The description of the root is dropped beforehand, so a root takes its
reference from its title alone. -/

namespace SchemaDecl.Schema.Prepared

open TypeScript

def dropped : List Key := ["title", "id", "minItems", "maxItems", "default"]

def target (typeName : String) (path : Path) (reference : String) : String :=
  IndexedAccess.render ⟨typeName, Reference.resolve path reference⟩

def withAlias (typeName : String) (path : Path) (fields : Fields) : Fields :=
  match Reference.ofFields? fields with
  | some reference => Fields.set fields "tsType" (.str (target typeName path reference))
  | none => fields

def closed (fields : Fields) : Fields :=
  match Fields.value fields "type" with
  | .str "object" => Fields.set fields "additionalProperties" (.bool false)
  | _ => fields

def node (typeName : String) (path : Path) (fields : Fields) : Fields :=
  closed (Fields.eraseAll (withAlias typeName path fields) dropped)

def visitor (typeName : String) : Visitor := ⟨node typeName, 0⟩

def withoutDescription : Json → Json
  | .obj fields => .obj (Fields.erase fields "description")
  | other => other

def prepareWithVisits (typeName : String) (schema : Json) :
    Except FoldFault (Json × List Visit) :=
  traverse (visitor typeName) [] (withoutDescription schema)

def prepare (typeName : String) (schema : Json) : Except FoldFault Json :=
  (prepareWithVisits typeName schema).map Prod.fst

end SchemaDecl.Schema.Prepared
