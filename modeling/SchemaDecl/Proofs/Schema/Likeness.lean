import SchemaDecl.Proofs.Schema.PairedWalks
import SchemaDecl.Proofs.Schema.VisitOrder

/-! Schemas that look alike to a compiler. It reads a few keywords of a node and
what stands below it; all other keywords, and the order in which the keywords of
a node stand, are free. Most keywords are read by their value, for which null is as
good as nothing; that a keyword is there at all counts if it decides what the type is,
or shows that there is a structure. Schemas that are seen as the same are prepared to
schemas that are, or they fail in the same way. -/

namespace SchemaDecl.Schema

open TypeScript

/-- The keywords whose values are read as they stand. -/
def readKeys : List Key :=
  ["title", "description", "type", "required", "enum", "const", "tsType", "tsEnumNames",
    "__is_any__"]

/-- The keywords of which only the nodes below and what kind of value it is are read. -/
def outlinedKeys : List Key := "additionalProperties" :: "items" :: combinators

/-- The kind of a value, and how many entries it has as a list. -/
def outline : Json → Json
  | .obj _ => .obj []
  | .arr entries => .arr (entries.map fun _ => .null)
  | other => other

/-- The names of properties in order. -/
def propertiesOutline : Json → Json
  | .obj properties => .obj (properties.map fun p => (p.1, .null))
  | other => other

/-- The nodes look the same, apart from what stands below them. -/
structure SameFace (fs gs : Fields) : Prop where
  read : ∀ key ∈ readKeys, Fields.get? fs key = Fields.get? gs key
  properties : (Fields.get? fs "properties").map propertiesOutline =
    (Fields.get? gs "properties").map propertiesOutline
  outlines : ∀ key ∈ outlinedKeys,
    (Fields.get? fs key).map outline = (Fields.get? gs key).map outline

/-- The children of a node and the schema of its additional properties. -/
def partsBelow (fields : Fields) : List Json :=
  objectUnder fields "additionalProperties" ++ childValues fields

/-- Nodes that look the same at each place. What is no node stands for no node, whatever it is. -/
inductive Alike : Json → Json → Prop
  | leaf {x y : Json} : (∀ fields, x ≠ .obj fields) → (∀ fields, y ≠ .obj fields) → Alike x y
  | node {fs gs : Fields} : SameFace fs gs → List.Forall₂ Alike (partsBelow fs) (partsBelow gs) →
      Alike (.obj fs) (.obj gs)

/-- The keywords of which only the value is read. -/
def valueKeys : List Key := ["title", "description", "type", "required"]

def decidingKeys : List Key := ["enum", "const", "tsType", "tsEnumNames", "__is_any__"]

def partKeys : List Key := "additionalProperties" :: combinators

/-- What an entry in a list of properties is folded by. -/
def namedOutline : Json → Json
  | .obj fields => .obj [("name", Fields.value fields "name")]
  | _ => .null

/-- The names of properties in order, whether they are listed or not. -/
def listing : Json → Json
  | .obj properties => .obj (properties.map fun p => (p.1, .null))
  | .arr entries => .arr (entries.map namedOutline)
  | other => other

/-- The nodes are read in the same way, apart from what stands below them. How they are structured
counts only on a node that is not decided. -/
structure SameView (decided : Fields → Bool) (fs gs : Fields) : Prop where
  values : ∀ key ∈ valueKeys, Fields.value fs key = Fields.value gs key
  deciding : ∀ key ∈ decidingKeys, Fields.get? fs key = Fields.get? gs key
  properties : listing (Fields.value fs "properties") = listing (Fields.value gs "properties")
  entries : outline (Fields.value fs "items") = outline (Fields.value gs "items")
  outlines : ∀ key ∈ partKeys,
    (Fields.get? fs key).map outline = (Fields.get? gs key).map outline
  structured : decided fs = false →
    hasStructure fs = hasStructure gs ∧ typeNames fs = typeNames gs

/-- Nodes that are read in the same way at each place. -/
inductive Seen : Json → Json → Prop
  | leaf {x y : Json} : (∀ fields, x ≠ .obj fields) → (∀ fields, y ≠ .obj fields) → Seen x y
  | node {fs gs : Fields} : SameView decidesAlone fs gs →
      List.Forall₂ Seen (partsBelow fs) (partsBelow gs) → Seen (.obj fs) (.obj gs)

/-! Faces. -/

theorem outline_of_kept {old new : Json} (h : Kept old new) : outline new = outline old := by
  rcases h with rfl | ⟨fs, gs, rfl, rfl⟩
  · rfl
  · rfl

section
variable {fs gs : Fields}

theorem SameFace.refl (fields : Fields) : SameFace fields fields :=
  ⟨fun _ _ => rfl, rfl, fun _ _ => rfl⟩

theorem SameFace.symm (h : SameFace fs gs) : SameFace gs fs :=
  ⟨fun key hkey => (h.read key hkey).symm, h.properties.symm,
    fun key hkey => (h.outlines key hkey).symm⟩

theorem SameFace.trans {hs : Fields} (h : SameFace fs gs) (h' : SameFace gs hs) : SameFace fs hs :=
  ⟨fun key hkey => (h.read key hkey).trans (h'.read key hkey), h.properties.trans h'.properties,
    fun key hkey => (h.outlines key hkey).trans (h'.outlines key hkey)⟩

theorem SameFace.value_eq (h : SameFace fs gs) (key : Key) (hkey : key ∈ readKeys) :
    Fields.value fs key = Fields.value gs key := Fields.value_congr (h.read key hkey)

theorem isSome_of_map_eq {f : Json → Json} {a b : Option Json} (h : a.map f = b.map f) :
    a.isSome = b.isSome := by
  rw [← Option.isSome_map (f := f), h, Option.isSome_map]

/-- Keywords that are read in any way are there on both nodes or on none. -/
theorem SameFace.contains_eq (h : SameFace fs gs) (key : Key)
    (hkey : key ∈ readKeys ∨ key = "properties" ∨ key ∈ outlinedKeys) :
    Fields.contains fs key = Fields.contains gs key := by
  rcases hkey with hkey | rfl | hkey
  · rw [Fields.contains, h.read key hkey, Fields.contains]
  · exact isSome_of_map_eq h.properties
  · exact isSome_of_map_eq (h.outlines key hkey)

theorem outline_value (fields : Fields) (key : Key) :
    outline (Fields.value fields key) = ((Fields.get? fields key).map outline).getD .null := by
  rw [Fields.value]
  cases Fields.get? fields key <;> rfl

theorem SameFace.outline_eq (h : SameFace fs gs) (key : Key) (hkey : key ∈ outlinedKeys) :
    outline (Fields.value fs key) = outline (Fields.value gs key) := by
  rw [outline_value, h.outlines key hkey, ← outline_value]

theorem SameFace.propertiesOutline_eq (h : SameFace fs gs) :
    propertiesOutline (Fields.value fs "properties") =
      propertiesOutline (Fields.value gs "properties") := by
  have hvalue : ∀ fields : Fields, propertiesOutline (Fields.value fields "properties") =
      ((Fields.get? fields "properties").map propertiesOutline).getD .null := by
    intro fields
    rw [Fields.value]
    cases Fields.get? fields "properties" <;> rfl
  rw [hvalue, h.properties, ← hvalue]

theorem SameFace.typeNames_eq (h : SameFace fs gs) : typeNames fs = typeNames gs := by
  rw [typeNames, typeNames, h.value_eq "type" (by decide),
    h.contains_eq "properties" (.inr (.inl rfl))]

theorem SameFace.hasStructure_eq (h : SameFace fs gs) : hasStructure fs = hasStructure gs := by
  simp only [hasStructure, List.any_cons, List.any_nil, h.contains_eq "type" (.inl (by decide)),
    h.contains_eq "properties" (.inr (.inl rfl)),
    h.contains_eq "items" (.inr (.inr (by decide)))]

theorem listing_of_propertiesOutline {v w : Json} (h : propertiesOutline v = propertiesOutline w) :
    listing v = listing w := by
  cases v <;> cases w <;> first | exact h | cases h
  all_goals rfl

theorem mem_outlinedKeys {key : Key} (h : key ∈ partKeys) : key ∈ outlinedKeys := by
  rcases List.mem_cons.1 h with rfl | h
  · exact List.mem_cons_self
  · exact List.mem_cons_of_mem _ (List.mem_cons_of_mem _ h)

/-- Nodes that look the same are read in the same way. -/
theorem SameFace.view (h : SameFace fs gs) (decided : Fields → Bool) : SameView decided fs gs where
  values key hkey := h.value_eq key (List.mem_append_left decidingKeys hkey)
  deciding key hkey := h.read key (List.mem_append_right valueKeys hkey)
  properties := listing_of_propertiesOutline h.propertiesOutline_eq
  entries := h.outline_eq "items" (by decide)
  outlines key hkey := h.outlines key (mem_outlinedKeys hkey)
  structured _ := ⟨h.hasStructure_eq, h.typeNames_eq⟩

/-! Views. -/

theorem decidesAlone_congr (h : ∀ key ∈ decidingKeys, Fields.get? fs key = Fields.get? gs key) :
    decidesAlone fs = decidesAlone gs := by
  simp only [decidesAlone, Fields.value, Fields.contains, List.any_cons, List.any_nil,
    h "__is_any__" (by decide), h "tsType" (by decide), h "const" (by decide),
    h "enum" (by decide)]

variable {decided : Fields → Bool}

section
variable (h : SameView decided fs gs)
include h

theorem SameView.value_eq (key : Key) (hkey : key ∈ readKeys) :
    Fields.value fs key = Fields.value gs key := by
  have hsplit : readKeys = valueKeys ++ decidingKeys := rfl
  rw [hsplit, List.mem_append] at hkey
  exact hkey.elim (h.values key) fun hkey => Fields.value_congr (h.deciding key hkey)

theorem SameView.contains_eq (key : Key) (hkey : key ∈ decidingKeys) :
    Fields.contains fs key = Fields.contains gs key := by
  rw [Fields.contains, h.deciding key hkey, Fields.contains]

theorem SameView.decidesAlone_eq : decidesAlone fs = decidesAlone gs :=
  decidesAlone_congr h.deciding

theorem SameView.outline_eq (key : Key) (hkey : key ∈ outlinedKeys) :
    outline (Fields.value fs key) = outline (Fields.value gs key) := by
  have hread : ∀ key ∈ partKeys,
      outline (Fields.value fs key) = outline (Fields.value gs key) := fun key hkey => by
    rw [outline_value, h.outlines key hkey, ← outline_value]
  simp only [outlinedKeys, List.mem_cons] at hkey
  rcases hkey with rfl | rfl | hkey
  · exact hread _ List.mem_cons_self
  · exact h.entries
  · exact hread key (List.mem_cons_of_mem _ hkey)

/-- A view does not depend on what else stands on the nodes. -/
theorem SameView.congr {fs' gs' : Fields} {decided' : Fields → Bool} (hfs : SameFace fs fs')
    (hgs : SameFace gs gs') (hdecided : decided' fs' = false → decided fs = false) :
    SameView decided' fs' gs' where
  values key hkey := by
    have hmem : key ∈ readKeys := List.mem_append_left decidingKeys hkey
    rw [← hfs.value_eq key hmem, h.values key hkey, hgs.value_eq key hmem]
  deciding key hkey := by
    have hmem : key ∈ readKeys := List.mem_append_right valueKeys hkey
    rw [← hfs.read key hmem, h.deciding key hkey, hgs.read key hmem]
  properties := by
    rw [← listing_of_propertiesOutline hfs.propertiesOutline_eq, h.properties,
      listing_of_propertiesOutline hgs.propertiesOutline_eq]
  entries := by
    rw [← hfs.outline_eq "items" (by decide), h.entries, hgs.outline_eq "items" (by decide)]
  outlines key hkey := by
    have hmem := mem_outlinedKeys hkey
    rw [← hfs.outlines key hmem, h.outlines key hkey, hgs.outlines key hmem]
  structured hopen := by
    rw [← hfs.hasStructure_eq, ← hfs.typeNames_eq, ← hgs.hasStructure_eq, ← hgs.typeNames_eq]
    exact h.structured (hdecided hopen)
end

theorem map_fst_of_listing {ps qs : Fields} (h : listing (.obj ps) = listing (.obj qs)) :
    ps.map Prod.fst = qs.map Prod.fst := by
  have hkeys := congrArg (List.map Prod.fst) (Json.obj.inj h)
  simpa [List.map_map, Function.comp_def] using hkeys

theorem SameView.map_fst_properties (h : SameView decided fs gs) :
    (Schema.properties fs).map Prod.fst = (Schema.properties gs).map Prod.fst := by
  have houtline := h.properties
  unfold Schema.properties
  generalize Fields.value fs "properties" = v at houtline ⊢
  generalize Fields.value gs "properties" = w at houtline ⊢
  cases v <;> cases w <;> first | rfl | cases houtline | exact map_fst_of_listing houtline

theorem SameView.length_items (h : SameView decided fs gs) :
    (items fs).length = (items gs).length := by
  have houtline := h.outline_eq ("items" : Key) (by simp [outlinedKeys])
  unfold items
  generalize Fields.value fs "items" = v at houtline ⊢
  generalize Fields.value gs "items" = w at houtline ⊢
  cases v <;> cases w <;> first | rfl | cases houtline | skip
  simpa using congrArg List.length (Json.arr.inj houtline)

theorem SameView.length_members (h : SameView decided fs gs) {key : Key}
    (hkey : key ∈ combinators) : (members fs key).length = (members gs key).length := by
  have houtline := h.outline_eq key
    (List.mem_cons_of_mem _ (List.mem_cons_of_mem _ hkey))
  unfold members
  generalize Fields.value fs key = v at houtline ⊢
  generalize Fields.value gs key = w at houtline ⊢
  cases v <;> cases w <;> first | rfl | cases houtline | skip
  simpa using congrArg List.length (Json.arr.inj houtline)
end

/-! Children of nodes that are read in the same way. -/

section
variable {fs gs : Fields} {decided : Fields → Bool}

/-- From nodes that are read in the same way the same steps can be taken. -/
theorem SameView.steps_eq (h : SameView decided fs gs) :
    (steps fs).map Prod.fst = (steps gs).map Prod.fst := by
  have hproperties := congrArg (List.map Step.property) h.map_fst_properties
  rw [List.map_map, List.map_map] at hproperties
  rw [steps_map_fst, steps_map_fst, h.length_items]
  refine congrArg₂ _ (congrArg (· ++ _) hproperties) (List.flatMap_congr fun key hkey => ?_)
  rw [h.length_members hkey]

theorem SameView.length_additional (h : SameView decided fs gs) :
    (objectUnder fs "additionalProperties").length =
      (objectUnder gs "additionalProperties").length := by
  have houtline := h.outline_eq "additionalProperties" (by simp [outlinedKeys])
  unfold objectUnder
  generalize Fields.value fs "additionalProperties" = v at houtline ⊢
  generalize Fields.value gs "additionalProperties" = w at houtline ⊢
  cases v <;> cases w <;> first | rfl | cases houtline

theorem forall₂_append_iff {α β : Type} {R : α → β → Prop} {xs xs' : List α} {ys ys' : List β}
    (h : xs.length = ys.length) : List.Forall₂ R (xs ++ xs') (ys ++ ys') ↔
      List.Forall₂ R xs ys ∧ List.Forall₂ R xs' ys' := by
  induction xs generalizing ys with
  | nil =>
    obtain rfl := List.length_eq_zero_iff.1 h.symm
    simp
  | cons x xs ih =>
    cases ys with
    | nil => cases h
    | cons y ys => simp [ih (Nat.succ.inj h), and_assoc]

theorem forall₂_of_fst_snd {α : Type} {R : Json → Json → Prop} {cs ds : List (α × Json)}
    (hfst : cs.map Prod.fst = ds.map Prod.fst)
    (hsnd : List.Forall₂ R (cs.map Prod.snd) (ds.map Prod.snd)) :
    List.Forall₂ (fun c d => c.1 = d.1 ∧ R c.2 d.2) cs ds := by
  induction cs generalizing ds with
  | nil =>
    cases ds with
    | nil => exact .nil
    | cons d ds => cases hfst
  | cons c cs ih =>
    cases ds with
    | nil => cases hfst
    | cons d ds =>
      rw [List.map_cons, List.map_cons, List.forall₂_cons] at hsnd
      rw [List.map_cons, List.map_cons, List.cons.injEq] at hfst
      exact .cons ⟨hfst.1, hsnd.1⟩ (ih hfst.2 hsnd.2)

/-- What matches child by child, matches with the paths of the children. -/
theorem SameView.forall₂_children {R : Json → Json → Prop} (h : SameView decided fs gs)
    (path : Path) (hR : List.Forall₂ R (childValues fs) (childValues gs)) :
    List.Forall₂ (fun c d => c.1 = d.1 ∧ R c.2 d.2) (children path fs) (children path gs) := by
  rw [← steps_map_snd, ← steps_map_snd] at hR
  rw [children_eq_steps, children_eq_steps, List.forall₂_map_left_iff, List.forall₂_map_right_iff]
  exact (forall₂_of_fst_snd h.steps_eq hR).imp fun c d hcd => ⟨by rw [hcd.1], hcd.2⟩

theorem forall₂_combinators {R : Json → Json → Prop} (h : SameView decided fs gs)
    (hR : List.Forall₂ R (combinators.flatMap (members fs)) (combinators.flatMap (members gs))) :
    ∀ key ∈ combinators, List.Forall₂ R (members fs key) (members gs key) := by
  have hall : ∀ keys : List Key, (∀ key ∈ keys, key ∈ combinators) →
      List.Forall₂ R (keys.flatMap (members fs)) (keys.flatMap (members gs)) →
      ∀ key ∈ keys, List.Forall₂ R (members fs key) (members gs key) := by
    intro keys hkeys hsplit
    induction keys with
    | nil => exact nofun
    | cons first rest ih =>
      have hlength := h.length_members (hkeys first (List.mem_cons_self ..))
      rw [List.flatMap_cons, List.flatMap_cons, forall₂_append_iff hlength] at hsplit
      intro key hkey
      rcases List.mem_cons.1 hkey with rfl | hkey
      · exact hsplit.1
      · exact ih (fun k hk => hkeys k (List.mem_cons_of_mem _ hk)) hsplit.2 key hkey
  exact hall _ (fun _ hkey => hkey) hR

/-- What matches part by part, matches keyword by keyword. -/
theorem SameView.forall₂_parts {R : Json → Json → Prop} (h : SameView decided fs gs)
    (hR : List.Forall₂ R (partsBelow fs) (partsBelow gs)) :
    List.Forall₂ R (objectUnder fs "additionalProperties")
        (objectUnder gs "additionalProperties") ∧
      List.Forall₂ R ((Schema.properties fs).map Prod.snd) ((Schema.properties gs).map Prod.snd) ∧
      List.Forall₂ R (items fs) (items gs) ∧
      ∀ key ∈ combinators, List.Forall₂ R (members fs key) (members gs key) := by
  have hproperties := congrArg List.length h.map_fst_properties
  rw [List.length_map, List.length_map] at hproperties
  obtain ⟨hadditional, hchildren⟩ := (forall₂_append_iff h.length_additional).1 hR
  obtain ⟨hvalues, hrest⟩ := (forall₂_append_iff (by simpa using hproperties)).1 hchildren
  obtain ⟨hitems, hmembers⟩ := (forall₂_append_iff h.length_items).1 hrest
  exact ⟨hadditional, hvalues, hitems, forall₂_combinators h hmembers⟩
end

theorem alike_node {fs gs : Fields} (hface : SameFace fs gs)
    (hadditional : List.Forall₂ Alike (objectUnder fs "additionalProperties")
      (objectUnder gs "additionalProperties"))
    (hchildren : List.Forall₂ Alike (childValues fs) (childValues gs)) :
    Alike (.obj fs) (.obj gs) :=
  .node hface ((forall₂_append_iff (hface.view decidesAlone).length_additional).2
    ⟨hadditional, hchildren⟩)

section
variable {fs gs : Fields}

theorem Seen.view (h : Seen (.obj fs) (.obj gs)) : SameView decidesAlone fs gs := by
  cases h with
  | leaf hno _ => exact absurd rfl (hno _)
  | node hview _ => exact hview

theorem Seen.partsBelow (h : Seen (.obj fs) (.obj gs)) :
    List.Forall₂ Seen (partsBelow fs) (partsBelow gs) := by
  cases h with
  | leaf hno _ => exact absurd rfl (hno _)
  | node _ hparts => exact hparts

theorem seen_node (hview : SameView decidesAlone fs gs)
    (hadditional : List.Forall₂ Seen (objectUnder fs "additionalProperties")
      (objectUnder gs "additionalProperties"))
    (hchildren : List.Forall₂ Seen (childValues fs) (childValues gs)) :
    Seen (.obj fs) (.obj gs) :=
  .node hview ((forall₂_append_iff hview.length_additional).2 ⟨hadditional, hchildren⟩)

theorem Seen.exists_obj {y : Json} (h : Seen (.obj fs) y) : ∃ gs, y = .obj gs := by
  cases h with
  | leaf hno _ => exact absurd rfl (hno _)
  | node _ _ => exact ⟨_, rfl⟩

theorem Seen.not_node {x y : Json} (h : Seen x y) (hno : ∀ fields, x ≠ .obj fields) :
    ∀ fields, y ≠ .obj fields := by
  cases h with
  | leaf _ hno' => exact hno'
  | node _ _ => exact absurd rfl (hno _)

theorem depth_of_mem_partsBelow {fields : Fields} {x : Json} (h : x ∈ partsBelow fields) :
    x.depth ≤ Json.depthFields fields := by
  rcases List.mem_append.1 h with h | h
  · unfold objectUnder at h
    split at h
    · rename_i inner hinner
      rw [List.mem_singleton.1 h, ← hinner]
      exact Fields.depth_value_le fields _
    · cases h
  · exact depth_of_mem_childValues h

/-- By induction on the levels of the schema. -/
theorem Alike.refl (x : Json) : Alike x x := by
  cases x with
  | obj fields =>
    exact .node (.refl fields) (List.forall₂_same.2 fun y hy => Alike.refl y)
  | _ => exact .leaf nofun nofun
termination_by x.depth
decreasing_by
  have hle := depth_of_mem_partsBelow hy
  rw [Json.depth]
  omega

theorem forall₂_alike_refl (xs : List Json) : List.Forall₂ Alike xs xs :=
  List.forall₂_same.2 fun x _ => .refl x

theorem forall₂_imp_of_mem {α β : Type} {R S : α → β → Prop} {xs : List α} {ys : List β}
    (h : List.Forall₂ R xs ys) (himp : ∀ x ∈ xs, ∀ y ∈ ys, R x y → S x y) :
    List.Forall₂ S xs ys := by
  obtain ⟨hlength, hall⟩ := List.forall₂_iff_zip.1 h
  refine List.forall₂_iff_zip.2 ⟨hlength, fun {x y} hzip => ?_⟩
  obtain ⟨hx, hy⟩ := List.of_mem_zip hzip
  exact himp x hx y hy (hall hzip)

/-- By induction on the levels of the first schema. -/
theorem Alike.seen {x y : Json} (h : Alike x y) : Seen x y := by
  cases h with
  | leaf hno hno' => exact .leaf hno hno'
  | node hface hparts =>
    exact .node (hface.view _) (forall₂_imp_of_mem hparts fun x hx y _ hxy => hxy.seen)
termination_by x.depth
decreasing_by
  have hle := depth_of_mem_partsBelow hx
  rw [Json.depth]
  omega
end

theorem objectUnder_congr {fields fields' : Fields} {key : Key}
    (h : Fields.get? fields' key = Fields.get? fields key) :
    objectUnder fields' key = objectUnder fields key := by
  rw [objectUnder, objectUnder, Fields.value_congr h]

/-- Nodes that hold the same under each keyword that counts are alike. -/
theorem alike_of_agree {fs gs : Fields}
    (hread : ∀ key ∈ readKeys, Fields.get? gs key = Fields.get? fs key)
    (hproperties : Fields.get? gs "properties" = Fields.get? fs "properties")
    (houtlined : ∀ key ∈ outlinedKeys, Fields.get? gs key = Fields.get? fs key) :
    Alike (.obj fs) (.obj gs) := by
  have hchild : ∀ key ∈ childKeys, Fields.get? gs key = Fields.get? fs key := by
    intro key hkey
    rcases List.mem_cons.1 hkey with rfl | hkey
    · exact hproperties
    · exact houtlined key (List.mem_cons_of_mem _ hkey)
  refine .node ⟨fun key hkey => (hread key hkey).symm, by rw [hproperties],
    fun key hkey => by rw [houtlined key hkey]⟩ ?_
  rw [partsBelow, partsBelow, (childValues_congr hchild []).2,
    objectUnder_congr (houtlined "additionalProperties" (by decide))]
  exact forall₂_alike_refl _

/-! New children. -/

section
variable {fields : Fields} {new : List Json}

theorem propertiesOutline_withValues (ps : Fields) (new : List Json) :
    propertiesOutline (.obj (Fields.withValues ps new)) = propertiesOutline (.obj ps) := by
  have hkeys := congrArg (List.map fun key : Key => (key, Json.null)) (Fields.withValues_fst ps new)
  rw [List.map_map, List.map_map] at hkeys
  exact congrArg Json.obj hkeys

theorem outline_withProperties (fields : Fields) (new : List Json) :
    (Fields.get? (withProperties fields new) "properties").map propertiesOutline =
      (Fields.get? fields "properties").map propertiesOutline := by
  unfold withProperties
  split
  · rename_i ps hps
    rw [Fields.get?_set_same fields _ rfl, Fields.get?_of_value hps (by simp), Option.map_some,
      Option.map_some, propertiesOutline_withValues]
  · rfl

theorem outline_withItems (h : List.Forall₂ Kept (items fields) new) :
    (Fields.get? (withItems fields new) "items").map outline =
      (Fields.get? fields "items").map outline := by
  by_cases hs : IsSingle (Fields.value fields "items")
  · rw [items_of_single hs] at h
    cases h with
    | cons hy hnil =>
      cases hnil
      rw [withItems_of_single hs, Fields.get?_set_same fields _ rfl,
        Fields.get?_of_value rfl hs.1, Option.map_some, Option.map_some, outline_of_kept hy]
  · cases hv : Fields.value fields "items" with
    | null => simp only [withItems, hv]
    | arr old =>
      simp only [items, hv] at h
      simp only [withItems, hv, Fields.get?_set_same fields _ rfl,
        Fields.get?_of_value hv (by simp), Option.map_some, outline, List.map_const', h.length_eq]
    | _ => exact absurd ⟨by simp, by simp⟩ (hv ▸ hs)

theorem outline_withMembers {key : Key} (h : new.length = (members fields key).length) :
    (Fields.get? (withMembers fields key new) key).map outline =
      (Fields.get? fields key).map outline := by
  cases hv : Fields.value fields key with
  | arr old =>
    simp only [members, hv] at h
    simp only [withMembers, hv, Fields.get?_set_same fields _ rfl,
      Fields.get?_of_value hv (by simp), Option.map_some, outline, List.map_const', h]
  | _ => simp only [withMembers, hv]

theorem outline_withChildren (h : List.Forall₂ Kept (childValues fields) new) {key : Key}
    (hkey : key ∈ outlinedKeys) :
    (Fields.get? (withChildren fields new) key).map outline =
      (Fields.get? fields key).map outline := by
  simp only [outlinedKeys, List.mem_cons] at hkey
  rcases hkey with rfl | rfl | hkey
  · rw [get?_withChildren_other _ _ (by decide)]
  · rw [withChildren_eq, get?_memberSteps_other _ _ (by decide), outline_withItems (kept_items h),
      get?_withProperties_other _ _ (by decide)]
  · obtain ⟨now, hnow, heq⟩ := get?_withChildren_combinator h hkey
    rw [heq, outline_withMembers hnow]

theorem propertiesOutline_withChildren (fields : Fields) (new : List Json) :
    (Fields.get? (withChildren fields new) "properties").map propertiesOutline =
      (Fields.get? fields "properties").map propertiesOutline := by
  rw [withChildren_eq, get?_memberSteps_other _ _ (by decide),
    get?_withItems_other _ _ (by decide), outline_withProperties]

/-- A node looks the same with new children. -/
theorem sameFace_withChildren (h : List.Forall₂ Kept (childValues fields) new) :
    SameFace fields (withChildren fields new) where
  read key hkey := by
    have hother : ∀ k ∈ childKeys, k.canon ≠ key.canon := by
      revert key
      decide
    rw [get?_withChildren_other _ _ hother]
  properties := (propertiesOutline_withChildren fields new).symm
  outlines key hkey := (outline_withChildren h hkey).symm

/-- Nodes that are alike stay so with new children that are. -/
theorem alike_withChildren {fs gs : Fields} {new new' : List Json} (hface : SameFace fs gs)
    (hadditional : List.Forall₂ Alike (objectUnder fs "additionalProperties")
      (objectUnder gs "additionalProperties"))
    (hnew : List.Forall₂ Kept (childValues fs) new)
    (hnew' : List.Forall₂ Kept (childValues gs) new') (hall : List.Forall₂ Alike new new') :
    Alike (.obj (withChildren fs new)) (.obj (withChildren gs new')) := by
  refine alike_node ((sameFace_withChildren hnew).symm.trans
    (hface.trans (sameFace_withChildren hnew'))) ?_ ?_
  · rw [objectUnder_congr (get?_withChildren_other fs new (by decide)),
      objectUnder_congr (get?_withChildren_other gs new' (by decide))]
    exact hadditional
  · rw [childValues_withChildren hnew, childValues_withChildren hnew']
    exact hall

/-- Nodes that are read in the same way are so with new children that are. -/
theorem seen_withChildren {fs gs : Fields} {new new' : List Json}
    (hview : SameView decidesAlone fs gs)
    (hadditional : List.Forall₂ Seen (objectUnder fs "additionalProperties")
      (objectUnder gs "additionalProperties"))
    (hnew : List.Forall₂ Kept (childValues fs) new)
    (hnew' : List.Forall₂ Kept (childValues gs) new')
    (hall : List.Forall₂ Seen new new') :
    Seen (.obj (withChildren fs new)) (.obj (withChildren gs new')) := by
  have hface := sameFace_withChildren hnew
  refine seen_node (hview.congr hface (sameFace_withChildren hnew') fun hopen => ?_) ?_ ?_
  · rw [(hface.view decidesAlone).decidesAlone_eq, hopen]
  · rw [objectUnder_congr (get?_withChildren_other fs new (by decide)),
      objectUnder_congr (get?_withChildren_other gs new' (by decide))]
    exact hadditional
  · rw [childValues_withChildren hnew, childValues_withChildren hnew']
    exact hall
end

/-! Folding. -/

theorem sameEnd_self {ε α : Type} {Q : α → α → Prop} (h : ∀ a, Q a a) (x : Except ε α) :
    SameEnd Q x x := by
  cases x with
  | error fault => exact .inl ⟨fault, rfl, rfl⟩
  | ok a => exact sameEnd_ok (h a)

/-- The children of a node but for its properties. -/
def otherValues (fields : Fields) : List Json :=
  items fields ++ combinators.flatMap (members fields)

theorem childValues_eq (fields : Fields) :
    childValues fields = (properties fields).map Prod.snd ++ otherValues fields := rfl

theorem get?_set_properties (fields : Fields) (v : Json) {l : Key}
    (h : (Key.str "properties").canon ≠ l.canon) :
    Fields.get? (Fields.set fields "properties" v) l = Fields.get? fields l :=
  Fields.get?_set_other fields v h

theorem otherValues_congr {fields fields' : Fields}
    (hitems : Fields.get? fields' "items" = Fields.get? fields "items")
    (hmembers : ∀ key ∈ combinators, Fields.get? fields' key = Fields.get? fields key) :
    otherValues fields' = otherValues fields := by
  rw [otherValues, otherValues, items, items, Fields.value_congr hitems,
    List.flatMap_congr fun key hkey => members_congr (hmembers key hkey)]

theorem childValues_set_properties (fields ps : Fields) :
    childValues (Fields.set fields "properties" (.obj ps)) =
      ps.map Prod.snd ++ otherValues fields := by
  have hne : ∀ key ∈ combinators, (Key.str "properties").canon ≠ key.canon := by decide
  rw [childValues_eq, properties, Fields.value_set_same fields _ rfl,
    otherValues_congr (get?_set_properties fields _ (by decide))
      fun key hkey => get?_set_properties fields _ (hne key hkey)]

section
variable {fs gs : Fields} {decided : Fields → Bool}

theorem SameView.set_properties (h : SameView decided fs gs) {ps qs : Fields}
    (hkeys : ps.map Prod.fst = qs.map Prod.fst) :
    SameView decided (Fields.set fs "properties" (.obj ps))
      (Fields.set gs "properties" (.obj qs)) where
  values key hkey := by
    have hne : (Key.str "properties").canon ≠ key.canon := by
      revert key
      decide
    rw [Fields.value_congr (get?_set_properties fs _ hne), h.values key hkey,
      Fields.value_congr (get?_set_properties gs _ hne)]
  deciding key hkey := by
    have hne : (Key.str "properties").canon ≠ key.canon := by
      revert key
      decide
    rw [get?_set_properties _ _ hne, get?_set_properties _ _ hne, h.deciding key hkey]
  properties := by
    have hnull := congrArg (List.map fun key : Key => (key, Json.null)) hkeys
    rw [List.map_map, List.map_map] at hnull
    rw [Fields.value_set_same fs _ rfl, Fields.value_set_same gs _ rfl]
    exact congrArg Json.obj hnull
  entries := by
    rw [Fields.value_congr (get?_set_properties fs _ (by decide)), h.entries,
      Fields.value_congr (get?_set_properties gs _ (by decide))]
  outlines key hkey := by
    have hne : (Key.str "properties").canon ≠ key.canon := by
      revert key
      decide
    rw [get?_set_properties _ _ hne, get?_set_properties _ _ hne, h.outlines key hkey]
  -- with properties both are objects, unless the type says something else
  structured _ := by
    have htype : ∀ fields rest : Fields,
        Fields.value (Fields.set fields "properties" (.obj rest)) "type" =
          Fields.value fields "type" :=
      fun fields rest => Fields.value_congr (get?_set_properties fields _ (by decide))
    have hcontains : ∀ fields rest : Fields,
        Fields.contains (Fields.set fields "properties" (.obj rest)) "properties" = true :=
      fun fields rest => by rw [Fields.contains, Fields.get?_set_same fields _ rfl]; rfl
    simp only [hasStructure, typeNames, List.any_cons, htype, hcontains, Bool.true_or,
      Bool.or_true, h.values "type" (by decide), true_and]

end

end SchemaDecl.Schema
