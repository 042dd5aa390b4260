import SchemaDecl.Proofs.DeclaredText
import SchemaDecl.Proofs.Schema.PreparedViews
import SchemaDecl.Proofs.TypeScript.AlikeRenderings

/-! The keywords that count. What is declared for a schema depends on how its nodes are
read, each at its place, and at the root on whether it shows that it is an object.
Schemas that are alike are therefore declared in the same way, whatever else their
nodes hold and in whatever order they hold it. -/

namespace SchemaDecl

open TypeScript
open Schema (Alike SameFace Seen readKeys outlinedKeys)
open Schema.Prepared

variable {fs gs : Fields}

section
variable {x y : Json} (h : Seen x y) (hroot : isInterface x = isInterface y)
include h hroot

theorem renderedRoot_alike (typeName : String) :
    renderedRoot typeName x = renderedRoot typeName y := by
  rw [renderedRoot, renderedRoot, rootText_alike h hroot rfl]

theorem fileOf_alike (text : String) (state : RenderState) :
    fileOf x text state = fileOf y text state := by
  rw [fileOf, fileOf, rootDeclaration_alike h hroot]
end

/-- Schemas whose nodes will be read in the same way give the same text, or the same fault, if their
roots show in the same way whether they are objects. -/
theorem declareNode_foreseen
    (h : Foreseen (withoutDescription (.obj fs)) (withoutDescription (.obj gs)))
    (hroot : settled (Fields.erase fs "description") = false → showsObject fs = showsObject gs)
    (typeName : String) :
    (declareNode (standardBackend typeName) (.obj fs) typeName).outcome.1 =
      (declareNode (standardBackend typeName) (.obj gs) typeName).outcome.1 := by
  rcases seen_prepare h typeName with
    ⟨fault, hx, hy⟩ | ⟨prepared, prepared', hx, hy, hseen⟩
  · have hfault : ∀ {schema : Json},
        Schema.Prepared.prepareWithVisits typeName schema = .error fault →
        Schema.Prepared.prepare typeName schema = .error fault := by
      intro schema hschema
      rw [Schema.Prepared.prepare, hschema]
      rfl
    rw [outcome_of_fault (hfault hx), outcome_of_fault (hfault hy)]
  · have hprepared : ∀ {schema : Json} {found : Json × List Schema.Visit},
        Schema.Prepared.prepareWithVisits typeName schema = .ok found →
        Schema.Prepared.prepare typeName schema = .ok found.1 := by
      intro schema found hschema
      rw [Schema.Prepared.prepare, hschema]
      rfl
    obtain ⟨old, hold, hshows, hopen⟩ := root_of_prepare (hprepared hx)
    obtain ⟨new, hnew, hshows', _⟩ := root_of_prepare (hprepared hy)
    rw [outcome_of_prepare (hprepared hx), outcome_of_prepare (hprepared hy)]
    rw [hold, hnew] at hseen ⊢
    have hinterface := isInterface_eq_of_view hseen.view fun hundecided => by
      rw [hshows, hshows', hroot (hopen hundecided)]
    rw [renderedRoot_alike hseen hinterface]
    simp only [fileOf_alike hseen hinterface]

/-- The same with empty schemas and schemas marked as untyped. -/
theorem declare_foreseen (hempty : fs = [] ↔ gs = [])
    (h : Foreseen (withoutDescription (.obj fs)) (withoutDescription (.obj gs)))
    (hroot : settled (Fields.erase fs "description") = false → showsObject fs = showsObject gs)
    (typeName : String) :
    (declare (standardBackend typeName) (.obj fs) typeName).outcome.1 =
      (declare (standardBackend typeName) (.obj gs) typeName).outcome.1 := by
  have hmark : isMarkedAny fs = isMarkedAny gs := by
    cases h with
    | leaf hno _ => exact absurd rfl (hno _)
    | node hview _ _ =>
      have hvalue := hview.value_eq "__is_any__" (by decide)
      rw [value_erase_description fs (by decide), value_erase_description gs (by decide)] at hvalue
      rw [isMarkedAny, isMarkedAny, hvalue]
  by_cases hfs : fs = []
  · rw [hfs, hempty.1 hfs]
  have hgs : gs ≠ [] := fun hgs => hfs (hempty.2 hgs)
  by_cases hany : isMarkedAny fs = true
  · rw [declare_eq_anyAlias hfs hany, declare_eq_anyAlias hgs (hmark ▸ hany)]
  · have hnot : isMarkedAny fs = false := by simpa using hany
    rw [declare_eq_declareNode hfs hnot, declare_eq_declareNode hgs (hmark ▸ hnot)]
    exact declareNode_foreseen h hroot typeName

/-- Schemas that are alike, both empty or both not, are declared in the same way. -/
theorem declare_alike (hempty : fs = [] ↔ gs = []) (h : Alike (.obj fs) (.obj gs))
    (typeName : String) :
    (declare (standardBackend typeName) (.obj fs) typeName).outcome.1 =
      (declare (standardBackend typeName) (.obj gs) typeName).outcome.1 := by
  refine declare_foreseen hempty (foreseen_of_alike (alike_withoutDescription h)) (fun _ => ?_)
    typeName
  cases h with
  | leaf hno _ => exact absurd rfl (hno _)
  | node hface _ =>
    exact showsObject_congr (hface.read "type" (by decide))
      (hface.contains_eq "properties" (.inr (.inl rfl)))

/-- Only keywords that count have a say in what is declared: two nodes, neither of them empty, that
are alike all the way down give the same text, or the same fault, under every name. -/
theorem unread_keywords_free (hfs : fs ≠ []) (hgs : gs ≠ []) (h : Alike (.obj fs) (.obj gs))
    (typeName : String) :
    (declare (standardBackend typeName) (.obj fs) typeName).outcome.1 =
      (declare (standardBackend typeName) (.obj gs) typeName).outcome.1 :=
  declare_alike ⟨fun hnil => absurd hnil hfs, fun hnil => absurd hnil hgs⟩ h typeName

def bareMember : Fields := [("type", .str "string"), ("enum", .arr [.str "x"])]

def annotatedMember : Fields :=
  [("format", .str "date"), ("enum", .arr [.str "x"]), ("default", .null), ("type", .str "string")]

def bareSchema : Fields :=
  [("title", .str "T"), ("properties", .obj [("a", .obj bareMember)]),
    ("required", .arr [.str "a"])]

def annotatedSchema : Fields :=
  [("required", .arr [.str "a"]), ("id", .int 7),
    ("properties", .obj [("a", .obj annotatedMember)]), ("title", .str "T"), ("maxItems", .int 3)]

theorem unread_keywords_free_annotated :
    Alike (.obj bareSchema) (.obj annotatedSchema) ∧
      (declare (standardBackend "A") (.obj bareSchema) "A").outcome.1 =
        (declare (standardBackend "A") (.obj annotatedSchema) "A").outcome.1 := by
  have hmember : Alike (.obj bareMember) (.obj annotatedMember) :=
    Schema.alike_of_agree (by decide +kernel) (by decide +kernel) (by decide +kernel)
  have halike : Alike (.obj bareSchema) (.obj annotatedSchema) :=
    .node ⟨by decide +kernel, by decide +kernel, by decide +kernel⟩ (.cons hmember .nil)
  exact ⟨halike, unread_keywords_free (by decide) (by decide) halike "A"⟩

end SchemaDecl
