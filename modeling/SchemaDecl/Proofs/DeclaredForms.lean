import SchemaDecl.Proofs.ReadKeywords
import SchemaDecl.Proofs.Schema.Keywords
import SchemaDecl.Proofs.Schema.PropertyForms

/-! Declarations of schemas in their exported form. A schema is normalized before
it is declared; whether its properties are given as lists or as mappings makes
no difference to what is declared in the end. -/

namespace SchemaDecl

open TypeScript

/-- What is declared for a schema once it is normalized, or the first fault on the way. -/
def declaredFor (table : Fields) (typeName : String) (schema : Json) : Except Failure String := do
  let normal ← (Schema.Normal.normalize table schema).mapError Failure.fold
  (declare (standardBackend typeName) normal typeName).outcome.1

theorem mapped_of_not_node {schema : Json} (hno : ∀ fields, schema ≠ .obj fields) :
    Schema.mapped schema = schema := Schema.mappedTo_of_not_node hno _

theorem keys_mappedNode (go : Json → Json) (fields : Fields) :
    (Schema.mappedNode go fields).map Prod.fst = fields.map Prod.fst := by
  rw [Schema.mappedNode, List.map_map]
  rfl

theorem eq_nil_congr {fs gs : Fields} (h : fs.map Prod.fst = gs.map Prod.fst) :
    fs = [] ↔ gs = [] := by
  rw [← List.map_eq_nil_iff (f := Prod.fst), h, List.map_eq_nil_iff]

/-- Both forms of properties mean the same: under every table of type names and every name for the
declaration, a schema and the schema with mappings for its lists are declared in the same way. -/
theorem declaredFor_mapped (table : Fields) (typeName : String) (schema : Json) :
    declaredFor table typeName (Schema.mapped schema) = declaredFor table typeName schema := by
  by_cases hno : ∀ fields, schema ≠ .obj fields
  · rw [mapped_of_not_node hno]
  push Not at hno
  obtain ⟨fields, rfl⟩ := hno
  unfold declaredFor
  rcases Schema.alike_normalize table (.obj fields) with
    ⟨fault, hgiven, hmapped⟩ | ⟨normal, normal', hgiven, hmapped, halike⟩
  · rw [hgiven, hmapped]
  · rw [hgiven, hmapped]
    rw [Schema.mapped_obj] at hmapped
    obtain ⟨fs, rfl, hfs⟩ := Schema.Normal.keys_normalize hgiven
    obtain ⟨gs, rfl, hgs⟩ := Schema.Normal.keys_normalize hmapped
    have hkeys : fs.map Prod.fst = gs.map Prod.fst := by
      rw [hfs, hgs]
      exact (Fields.keys_eraseAll_congr (keys_mappedNode _ fields) _).symm
    exact (declare_alike (eq_nil_congr hkeys) halike typeName).symm

example : Schema.mapped (.obj [("type", .str "object"), ("properties", .arr [
      .obj [("name", .str "b"), ("type", .str "string")], .int 1,
      .obj [("name", .str "a"), ("properties", .arr [.obj [("name", .str "c")]])]])]) =
    .obj [("type", .str "object"), ("properties", .obj [
      ("b", .obj [("type", .str "string")]),
      ("a", .obj [("properties", .obj [("c", .obj [])])])])] := by decide +kernel

end SchemaDecl
