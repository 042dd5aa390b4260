import SchemaDecl.Json.Fields

/-! The walk over a schema tree. Only objects are nodes. At a node a list of
named properties is first folded into an object, then the visitor changes the
fields, and the walk goes on into the children of the changed node: its
properties in order, its items, and the members of its combinators. A step into
a property or an item adds to the path, a step into a combinator does not.
`walk` descends for as many levels as it is told, and `traverse` gives it the
depth of the tree together with what the visitor may add to it. -/

namespace SchemaDecl.Schema

/-- Property keys and item positions on the way from the root. -/
abbrev Path := List Json

inductive FoldFault
  | unusableName (name : Json)
  | notIterable (value : Json)
  deriving DecidableEq

structure Visitor where
  visit : Path → Fields → Fields
  growth : Nat

/-- A node as it was found, after folding and before the visitor changed it. -/
structure Visit where
  path : Path
  fields : Fields
  deriving DecidableEq

def combinators : List Key := ["oneOf", "anyOf", "allOf"]

/-- Objects keyed by their own `name`; entries that are no objects are dropped. -/
def foldEntries : List Json → Except FoldFault Fields
  | entries => entries.foldlM (fun folded entry =>
    match entry with
    | .obj fields =>
      let name := Fields.value fields "name"
      match name.toKey? with
      | some key => .ok (Fields.set folded key entry)
      | none => .error (.unusableName name)
    | _ => .ok folded) []

def foldProperties : Json → Except FoldFault Fields
  | .arr entries => foldEntries entries
  | .str _ | .obj _ => .ok []
  | value => .error (.notIterable value)

def foldNode (fields : Fields) : Except FoldFault Fields :=
  match Fields.value fields "properties" with
  | .arr entries => do
    let folded ← foldEntries entries
    return Fields.set fields "properties" (.obj folded)
  | _ => .ok fields

def properties (fields : Fields) : Fields :=
  match Fields.value fields "properties" with
  | .obj properties => properties
  | _ => []

def items (fields : Fields) : List Json :=
  match Fields.value fields "items" with
  | .null => []
  | .arr items => items
  | item => [item]

def members (fields : Fields) (combinator : Key) : List Json :=
  match Fields.value fields combinator with
  | .arr members => members
  | _ => []

def children (path : Path) (fields : Fields) : List (Path × Json) :=
  (properties fields).map (fun p => (path ++ [p.1.toJson], p.2)) ++
  (items fields).mapIdx (fun i item => (path ++ [.int i], item)) ++
  combinators.flatMap fun key => (members fields key).map fun member => (path, member)

def withProperties (fields : Fields) (new : List Json) : Fields :=
  match Fields.value fields "properties" with
  | .obj properties => Fields.set fields "properties" (.obj (Fields.withValues properties new))
  | _ => fields

def withItems (fields : Fields) (new : List Json) : Fields :=
  match Fields.value fields "items", new with
  | .null, _ => fields
  | .arr _, new => Fields.set fields "items" (.arr new)
  | _, item :: _ => Fields.set fields "items" item
  | _, [] => fields

def withMembers (fields : Fields) (combinator : Key) (new : List Json) : Fields :=
  match Fields.value fields combinator with
  | .arr _ => Fields.set fields combinator (.arr new)
  | _ => fields

/-- Puts new values in the places of the children, which are in the order of `children`. -/
def withChildren (fields : Fields) (new : List Json) : Fields :=
  let (forProperties, new) := new.splitAt (properties fields).length
  let (forItems, new) := new.splitAt (items fields).length
  let fields := withItems (withProperties fields forProperties) forItems
  let step := fun (state : Fields × List Json) (key : Key) =>
    let (now, later) := state.2.splitAt (members state.1 key).length
    (withMembers state.1 key now, later)
  (combinators.foldl step (fields, new)).1

abbrev Walker := Path → Json → Except FoldFault (Json × List Visit)

def walkAll (walker : Walker) : List (Path × Json) → Except FoldFault (List Json × List Visit)
  | [] => .ok ([], [])
  | (path, node) :: rest => do
    let (node, visits) ← walker path node
    let (nodes, more) ← walkAll walker rest
    return (node :: nodes, visits ++ more)

def walkNode (visitor : Visitor) (walker : Walker) : Walker := fun path node =>
  match node with
  | .obj fields => do
    let found ← foldNode fields
    let fields := visitor.visit path found
    let (new, visits) ← walkAll walker (children path fields)
    return (.obj (withChildren fields new), ⟨path, found⟩ :: visits)
  | _ => .ok (node, [])

def walk (visitor : Visitor) : Nat → Walker
  | 0 => fun _ node => .ok (node, [])
  | levels + 1 => walkNode visitor (walk visitor levels)

def traverse (visitor : Visitor) (path : Path) (node : Json) :
    Except FoldFault (Json × List Visit) :=
  walk visitor (node.depth + visitor.growth) path node

theorem walk_of_not_node (visitor : Visitor) (levels : Nat) (path : Path) {node : Json}
    (h : ∀ fields, node ≠ .obj fields) : walk visitor levels path node = .ok (node, []) := by
  cases levels with
  | zero => rfl
  | succ levels =>
    cases node with
    | obj fields => exact absurd rfl (h fields)
    | _ => rfl

end SchemaDecl.Schema
