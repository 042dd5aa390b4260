import SchemaDecl.Schema.Walk

/-! Small visitors: one that changes nothing, one that narrows a list of items
to its first entry, one that cuts a node off from its properties and one that
grows a property on nodes near the root. -/

namespace SchemaDecl.Schema.Visitor

def record : Visitor := ⟨fun _ fields => fields, 0⟩

def firstItem : Visitor where
  visit _ fields := match Fields.value fields "items" with
    | .arr (item :: _) => Fields.set fields "items" item
    | _ => fields
  growth := 0

def prune : Visitor := ⟨fun _ fields => Fields.erase fields "properties", 0⟩

/-- A node on which `grown` is set is left alone, as is one with a path of `reach` or more. -/
def grow (reach : Nat) : Visitor where
  visit path fields :=
    if path.length < reach && !Fields.contains fields "grown" then
      Fields.set (Fields.set fields "grown" (.bool true)) "properties"
        (.obj [("n", .obj [("type", .str "x")])])
    else fields
  growth := reach + 1

end SchemaDecl.Schema.Visitor
