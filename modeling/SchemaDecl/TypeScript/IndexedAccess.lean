import SchemaDecl.Json.Quoted

/-! Look-ups inside a named type. An expression is a root name and the keys
looked up one after another; every look-up is wrapped so that optional parents
can be indexed as well, which gives `NonNullable<Root["a"]>` for one key. -/

namespace SchemaDecl.TypeScript

structure IndexedAccess where
  root : String
  keys : List String
  deriving DecidableEq

namespace IndexedAccess

def index (e : IndexedAccess) (key : String) : IndexedAccess := ⟨e.root, e.keys ++ [key]⟩

/-- One look-up for each segment of a path. -/
def fromPath (root : String) (segments : List String) : IndexedAccess :=
  segments.foldl index ⟨root, []⟩

theorem fromPath_eq (root : String) (segments : List String) :
    fromPath root segments = ⟨root, segments⟩ := by
  have hfold : ∀ segments keys : List String,
      segments.foldl index ⟨root, keys⟩ = ⟨root, keys ++ segments⟩ := by
    intro segments
    induction segments with
    | nil => simp
    | cons segment segments ih =>
      intro keys
      rw [List.foldl_cons, index, ih, List.append_assoc]
      rfl
  exact hfold segments []

def opening (keys : List String) : String := String.join (keys.map fun _ => "NonNullable<")

def closing (keys : List String) : String :=
  String.join (keys.map fun key => "[" ++ Json.quote key ++ "]>")

def render (e : IndexedAccess) : String := opening e.keys ++ e.root ++ closing e.keys

theorem render_root (root : String) : render ⟨root, []⟩ = root := by
  simp [render, opening, closing]

example : (index (index ⟨"T", []⟩ "a") "0").render =
    "NonNullable<NonNullable<T[\"a\"]>[\"0\"]>" := by decide +kernel

end IndexedAccess

end SchemaDecl.TypeScript
