import SchemaDecl.Proofs.ReadKeywords
import SchemaDecl.Proofs.Schema.PropertyForms

/-! Keywords without a value. Three of them can be left out wherever they stand, as only
their values are read. The other three show the structure of a node by standing there:
a null under one of them can be left out of a node if its structure is read as before,
or if something else settles its type, and of the root if this still shows in the same
way that it is an object. -/

namespace SchemaDecl

open TypeScript
open Schema hiding Visitor
open Schema.Prepared

def nullable : List Key := ["type", "items", "properties", "required", "title", "description"]

/-- The nodes hold the same, apart from what the nodes below them hold that a walk comes to. -/
structure SameBut (fs gs : Fields) : Prop where
  other : ∀ key ∉ childKeys, Fields.get? fs key = Fields.get? gs key
  properties : (Fields.get? fs "properties").map listing = (Fields.get? gs "properties").map listing
  outlines : ∀ key ∈ ("items" : Key) :: combinators,
    (Fields.get? fs key).map outline = (Fields.get? gs key).map outline

/-- The second schema is the first one without some keywords, where it is allowed to take them off a
node. -/
inductive Thinned (Allowed : Fields → List Key → Prop) : Json → Json → Prop
  | leaf {x : Json} : (∀ fields, x ≠ .obj fields) → Thinned Allowed x x
  | node {fs gs : Fields} {taken : List Key} : Allowed fs taken →
      SameBut (Fields.eraseAll fs taken) gs →
      List.Forall₂ (Thinned Allowed) (walkedBelow fs) (walkedBelow gs) →
        Thinned Allowed (.obj fs) (.obj gs)

/-- The keywords are among the given ones, and the node has no value for them. -/
def NullsOf (keywords : List Key) (fields : Fields) (taken : List Key) : Prop :=
  ∀ key ∈ taken, key ∈ keywords ∧ Fields.value fields key = .null

/-- Without these nulls the structure of the node is read as before, or it will not count. -/
structure Unnoticed (fields : Fields) (taken : List Key) : Prop where
  nulls : NullsOf nullable fields taken
  structured : settled fields = false →
    hasStructure (Fields.eraseAll fields taken) = hasStructure fields ∧
      typeNames (Fields.eraseAll fields taken) = typeNames fields

variable {fs gs : Fields} {taken keywords : List Key}

theorem Thinned.imp {Allowed Allowed' : Fields → List Key → Prop}
    (himp : ∀ fields taken, Allowed fields taken → Allowed' fields taken) {x y : Json}
    (h : Thinned Allowed x y) : Thinned Allowed' x y := by
  cases h with
  | leaf hno => exact .leaf hno
  | node hallowed hsame hbelow =>
    refine .node (himp _ _ hallowed) hsame (forall₂_imp_of_mem hbelow fun x hx y _ hxy => ?_)
    exact hxy.imp himp
termination_by x.depth
decreasing_by
  have hle := depth_of_mem_walkedBelow hx
  rw [Json.depth]
  omega

/-! Taking nulls off a node. -/

theorem canon_ne_of_nulls (h : NullsOf nullable fs taken) {key : Key} (hkey : key ∉ taken) :
    ∀ k ∈ taken, k.canon ≠ key.canon := by
  have htexts : ∀ k ∈ nullable, isText k = true := by decide
  exact canon_ne_of_not_mem (fun k hk => htexts k (h k hk).1) hkey

theorem get?_without (h : NullsOf nullable fs taken) {key : Key} (hkey : key ∉ taken) :
    Fields.get? (Fields.eraseAll fs taken) key = Fields.get? fs key :=
  Fields.get?_eraseAll_other fs (canon_ne_of_nulls h hkey)

/-- Every value is as before. -/
theorem value_without (h : NullsOf nullable fs taken) (key : Key) :
    Fields.value (Fields.eraseAll fs taken) key = Fields.value fs key := by
  by_cases hkey : key ∈ taken
  · rw [Fields.value, Fields.get?_eraseAll_same fs hkey, (h key hkey).2]
    rfl
  · exact Fields.value_congr (get?_without h hkey)

theorem SameBut.contains_eq (h : SameBut fs gs) (key : Key) :
    Fields.contains fs key = Fields.contains gs key := by
  by_cases hchild : key ∈ childKeys
  · rcases List.mem_cons.1 hchild with rfl | hchild
    · exact isSome_of_map_eq h.properties
    · exact isSome_of_map_eq (h.outlines key hchild)
  · rw [Fields.contains, h.other key hchild, Fields.contains]

theorem listing_value (fields : Fields) : listing (Fields.value fields "properties") =
    ((Fields.get? fields "properties").map listing).getD .null := by
  rw [Fields.value]
  cases Fields.get? fields "properties" <;> rfl

theorem SameBut.hasStructure_eq (h : SameBut fs gs) : hasStructure fs = hasStructure gs := by
  simp only [hasStructure, List.any_cons, List.any_nil, h.contains_eq]

theorem SameBut.typeNames_eq (h : SameBut fs gs) : typeNames fs = typeNames gs := by
  rw [typeNames, typeNames, Fields.value_congr (h.other "type" (by decide)), h.contains_eq]

/-- Nodes are read in the same way after nulls were taken off unnoticed. -/
theorem Unnoticed.view (h : Unnoticed fs taken) (hsame : SameBut (Fields.eraseAll fs taken) gs) :
    SameView settled fs gs where
  values key hkey := by
    have hother : ∀ key ∈ valueKeys, key ∉ childKeys := by decide
    rw [← value_without h.nulls, Fields.value_congr (hsame.other key (hother key hkey))]
  deciding key hkey := by
    have hother : ∀ key ∈ decidingKeys, key ∉ childKeys ∧ key ∉ nullable := by decide
    obtain ⟨hchild, hnull⟩ := hother key hkey
    rw [← hsame.other key hchild, get?_without h.nulls fun hmem => hnull (h.nulls key hmem).1]
  properties := by
    rw [← value_without h.nulls, listing_value, hsame.properties, ← listing_value]
  entries := by
    rw [← value_without h.nulls, outline_value, hsame.outlines "items" (by simp), ← outline_value]
  outlines key hkey := by
    have hother : ∀ key ∈ partKeys, key ∉ nullable := by decide
    rw [← get?_without h.nulls fun hmem => hother key hkey (h.nulls key hmem).1]
    rcases List.mem_cons.1 hkey with rfl | hkey
    · rw [hsame.other _ (by decide)]
    · exact hsame.outlines key (List.mem_cons_of_mem _ hkey)
  structured hopen := by
    obtain ⟨hstructure, hnames⟩ := h.structured hopen
    exact ⟨hstructure.symm.trans hsame.hasStructure_eq, hnames.symm.trans hsame.typeNames_eq⟩

/-- By induction on the levels of the first schema. -/
theorem foreseen_of_thinned {x y : Json} (h : Thinned Unnoticed x y) : Foreseen x y := by
  cases h with
  | leaf hno => exact .leaf hno hno
  | @node fs gs taken hallowed hsame hbelow =>
    have hadditional : Fields.get? gs "additionalProperties" =
        Fields.get? fs "additionalProperties" := by
      have hnot : ("additionalProperties" : Key) ∉ nullable := by decide
      rw [← hsame.other _ (by decide),
        get?_without hallowed.nulls fun hmem => hnot (hallowed.nulls _ hmem).1]
    refine .node (hallowed.view hsame) ?_
      (forall₂_imp_of_mem hbelow fun x hx y _ hxy => foreseen_of_thinned hxy)
    rw [objectUnder_congr hadditional]
    exact (forall₂_alike_refl _).imp fun _ _ => Alike.seen
termination_by x.depth
decreasing_by
  have hle := depth_of_mem_walkedBelow hx
  rw [Json.depth]
  omega

/-! The description of the root. -/

theorem eraseAll_erase (fields : Fields) (key : Key) (keys : List Key) :
    Fields.eraseAll (Fields.erase fields key) keys =
      Fields.erase (Fields.eraseAll fields keys) key := by
  induction keys generalizing fields with
  | nil => rfl
  | cons first keys ih =>
    have hcomm : Fields.erase (Fields.erase fields key) first =
        Fields.erase (Fields.erase fields first) key := List.filter_comm _ _ _
    exact (congrArg (Fields.eraseAll · keys) hcomm).trans (ih _)

theorem SameBut.erase_description (h : SameBut fs gs) :
    SameBut (Fields.erase fs "description") (Fields.erase gs "description") where
  other key hkey := by
    by_cases hdescription : (Key.str "description").canon = key.canon
    · rw [Fields.get?_erase_same fs hdescription, Fields.get?_erase_same gs hdescription]
    · rw [Fields.get?_erase_other fs hdescription, Fields.get?_erase_other gs hdescription,
        h.other key hkey]
  properties := by
    rw [get?_child_erase_description fs (by decide), get?_child_erase_description gs (by decide),
      h.properties]
  outlines key hkey := by
    have hchild : key ∈ childKeys := List.mem_cons_of_mem _ hkey
    rw [get?_child_erase_description fs hchild, get?_child_erase_description gs hchild,
      h.outlines key hkey]

theorem walkedBelow_erase_description (fields : Fields) :
    walkedBelow (Fields.erase fields "description") = walkedBelow fields := by
  rw [walkedBelow, (children_erase_description [] fields).2, entriesUnder,
    value_erase_description fields (by decide), ← entriesUnder, ← walkedBelow]

theorem NullsOf.erase_description (h : NullsOf keywords fs taken) :
    NullsOf keywords (Fields.erase fs "description") taken := by
  intro key hkey
  refine ⟨(h key hkey).1, ?_⟩
  by_cases hdescription : (Key.str "description").canon = key.canon
  · rw [Fields.value, Fields.get?_erase_same fs hdescription]
    rfl
  · rw [value_erase_description fs hdescription, (h key hkey).2]

theorem thinned_withoutDescription {x y : Json} (h : Thinned (NullsOf keywords) x y) :
    Thinned (NullsOf keywords) (withoutDescription x) (withoutDescription y) := by
  cases h with
  | leaf hno =>
    rw [withoutDescription_of_not_node hno]
    exact .leaf hno
  | @node fs gs taken hallowed hsame hbelow =>
    refine .node hallowed.erase_description ?_ ?_
    · rw [eraseAll_erase]
      exact hsame.erase_description
    · rw [walkedBelow_erase_description, walkedBelow_erase_description]
      exact hbelow

/-! Keywords of which only the value is read. -/

def plainKeywords : List Key := ["required", "title", "description"]

theorem NullsOf.not_mem (h : NullsOf keywords fs taken) (hplain : keywords ⊆ plainKeywords)
    {key : Key} (hkey : key ∉ plainKeywords) : key ∉ taken :=
  fun hmem => hkey (hplain (h key hmem).1)

theorem NullsOf.nullable (h : NullsOf keywords fs taken) (hplain : keywords ⊆ plainKeywords) :
    NullsOf nullable fs taken := by
  have hsubset : plainKeywords ⊆ SchemaDecl.nullable := by decide
  exact fun key hkey => ⟨hsubset (hplain (h key hkey).1), (h key hkey).2⟩

theorem NullsOf.get?_plain (h : NullsOf keywords fs taken) (hplain : keywords ⊆ plainKeywords)
    {key : Key} (hkey : key ∉ plainKeywords) :
    Fields.get? (Fields.eraseAll fs taken) key = Fields.get? fs key :=
  get?_without (h.nullable hplain) (h.not_mem hplain hkey)

theorem unnoticed_of_plain (h : NullsOf keywords fs taken) (hplain : keywords ⊆ plainKeywords) :
    Unnoticed fs taken where
  nulls := h.nullable hplain
  structured _ := by
    have hcontains : ∀ key ∉ plainKeywords,
        Fields.contains (Fields.eraseAll fs taken) key = Fields.contains fs key := by
      intro key hkey
      rw [Fields.contains, h.get?_plain hplain hkey, Fields.contains]
    constructor
    · simp only [hasStructure, List.any_cons, List.any_nil, hcontains "type" (by decide),
        hcontains "properties" (by decide), hcontains "items" (by decide)]
    · rw [typeNames, typeNames, value_without (h.nullable hplain),
        hcontains "properties" (by decide)]

theorem showsObject_of_plain (hplain : keywords ⊆ plainKeywords)
    (h : Thinned (NullsOf keywords) (.obj fs) (.obj gs)) : showsObject fs = showsObject gs := by
  cases h with
  | leaf hno => exact absurd rfl (hno _)
  | @node _ _ taken hallowed hsame _ =>
    have htype : Fields.get? (Fields.eraseAll fs taken) "type" = Fields.get? fs "type" :=
      hallowed.get?_plain hplain (by decide)
    have hproperties :
        Fields.get? (Fields.eraseAll fs taken) "properties" = Fields.get? fs "properties" :=
      hallowed.get?_plain hplain (by decide)
    refine showsObject_congr ?_ ?_
    · rw [← htype, hsame.other "type" (by decide)]
    · rw [Fields.contains, ← hproperties, ← Fields.contains, hsame.contains_eq]

/-! What is declared. -/

/-- The schemas are declared by the same text under every name, or fail in the same way. -/
def DeclaredSame (fs gs : Fields) : Prop :=
  ∀ typeName, (declare (standardBackend typeName) (.obj fs) typeName).outcome.1 =
    (declare (standardBackend typeName) (.obj gs) typeName).outcome.1

/-- Nulls under the keywords can be left out, whatever the schema. -/
def Dispensable (keywords : List Key) : Prop :=
  ∀ fs gs, fs ≠ [] → gs ≠ [] → Thinned (NullsOf keywords) (.obj fs) (.obj gs) → DeclaredSame fs gs

theorem declaredSame_of_thinned (hfs : fs ≠ []) (hgs : gs ≠ [])
    (h : Thinned Unnoticed (withoutDescription (.obj fs)) (withoutDescription (.obj gs)))
    (hroot : settled (Fields.erase fs "description") = false → showsObject fs = showsObject gs) :
    DeclaredSame fs gs :=
  declare_foreseen ⟨fun hnil => absurd hnil hfs, fun hnil => absurd hnil hgs⟩
    (foreseen_of_thinned h) hroot

theorem dispensable_of_plain (hplain : keywords ⊆ plainKeywords) : Dispensable keywords :=
  fun _ _ hfs hgs h => declaredSame_of_thinned hfs hgs
    ((thinned_withoutDescription h).imp fun _ _ hnulls => unnoticed_of_plain hnulls hplain)
    fun _ => showsObject_of_plain hplain h

theorem SameBut.refl (fields : Fields) : SameBut fields fields :=
  ⟨fun _ _ => rfl, rfl, fun _ _ => rfl⟩

/-- A node whose title is of no consequence when it is the root. -/
def titled : Fields := [("title", .str "Rows")]

/-- The keywords that show a structure by standing there. -/
def telling : List Key := ["type", "items", "properties"]

theorem thinned_titled {key : Key} (hkey : key ∈ telling) (hmem : key ∈ keywords) :
    Thinned (NullsOf keywords) (.obj ((key, .null) :: titled)) (.obj titled) := by
  have hnothing : ∀ key ∈ telling, Fields.value ((key, .null) :: titled) key = .null ∧
      Fields.eraseAll ((key, .null) :: titled) [key] = titled ∧
        walkedBelow ((key, .null) :: titled) = [] := by decide
  obtain ⟨hvalue, herased, hbelow⟩ := hnothing key hkey
  have hnulls : NullsOf keywords ((key, .null) :: titled) [key] := fun k hk => by
    rw [List.mem_singleton.1 hk]
    exact ⟨hmem, hvalue⟩
  refine .node hnulls ?_ ?_
  · rw [herased]
    exact .refl titled
  · rw [hbelow]
    exact .nil

theorem titled_declared : (declare (standardBackend "T") (.obj titled) "T").outcome.1 =
    .ok "export type T = unknown;" :=
  Inversion.eq_ok_of_toOption (by decide +kernel)

theorem telling_noticed :
    ∀ key ∈ telling, ¬ DeclaredSame ((key, .null) :: titled) titled := by
  have hother : ∀ key ∈ telling,
      (declare (standardBackend "T") (.obj ((key, .null) :: titled)) "T").outcome.1.toOption ≠
        some "export type T = unknown;" := by decide +kernel
  intro key hkey hsame
  have htext := (hsame "T").trans titled_declared
  exact hother key hkey (by rw [htext]; rfl)

theorem plain_of_dispensable (hkeywords : keywords ⊆ nullable) (h : Dispensable keywords) :
    keywords ⊆ plainKeywords := by
  intro key hmem
  by_contra hplain
  have hsplit : ∀ key ∈ nullable, key ∉ plainKeywords → key ∈ telling := by decide
  have hkey := hsplit key (hkeywords hmem) hplain
  exact telling_noticed key hkey (h _ _ (by simp) (by decide) (thinned_titled hkey hmem))

/-! Arrays. -/

/-- The node is written as an array, or an array is one of its types. -/
def WrittenAsArray (fields : Fields) : Prop :=
  decidesAlone fields = false ∧ hasStructure fields = true ∧ .str "array" ∈ typeNames fields

theorem contains_of_value_ne_null {fields : Fields} {key : Key}
    (h : Fields.value fields key ≠ .null) : Fields.contains fields key = true := by
  cases hget : Fields.get? fields key with
  | none => exact absurd (by rw [Fields.value, hget]; rfl) h
  | some v => rw [Fields.contains, hget]; rfl

theorem writtenAsArray_iff (fields : Fields) : WrittenAsArray fields ↔
    decidesAlone fields = false ∧
      (Fields.value fields "type" = .str "array" ∨ .str "array" ∈ entriesUnder fields "type" ∨
        Fields.value fields "type" = .null ∧ Fields.contains fields "properties" = false ∧
          (Fields.contains fields "type" = true ∨ Fields.contains fields "items" = true)) := by
  refine and_congr_right fun _ => ?_
  have hstructure : hasStructure fields = true ↔ Fields.contains fields "type" = true ∨
      Fields.contains fields "properties" = true ∨ Fields.contains fields "items" = true := by
    simp [hasStructure]
  have hthere := @contains_of_value_ne_null fields "type"
  rw [hstructure, typeNames, entriesUnder]
  generalize Fields.value fields "type" = type at hthere ⊢
  cases type with
  | null => cases Fields.contains fields "properties" <;> simp
  | arr names => simp [hthere]
  | str name => simp [hthere, @eq_comm _ "array" name]
  | _ => simp [hthere]

/-! Nulls. -/

/-- A null under a keyword of which only the value is read counts as absent, and so does any other
null that goes unnoticed where it stands; the keywords that show a structure are not free, as a
null under one of them may make a node an array that has neither the type nor items. -/
theorem null_keywords_free_iff (keywords : List Key) (fs gs : Fields) :
    (keywords ⊆ nullable → (Dispensable keywords ↔ keywords ⊆ plainKeywords)) ∧
    (fs ≠ [] → gs ≠ [] →
      Thinned Unnoticed (withoutDescription (.obj fs)) (withoutDescription (.obj gs)) →
      (settled (Fields.erase fs "description") = false → showsObject fs = showsObject gs) →
        DeclaredSame fs gs) ∧
    (WrittenAsArray fs ↔ decidesAlone fs = false ∧
      (Fields.value fs "type" = .str "array" ∨ .str "array" ∈ entriesUnder fs "type" ∨
        Fields.value fs "type" = .null ∧ Fields.contains fs "properties" = false ∧
          (Fields.contains fs "type" = true ∨ Fields.contains fs "items" = true))) :=
  ⟨fun hkeywords => ⟨plain_of_dispensable hkeywords, dispensable_of_plain⟩,
    declaredSame_of_thinned, writtenAsArray_iff fs⟩

/-- Nulls beside a type and below a constant. -/
def spelledOut : Fields :=
  [("items", .null), ("properties", .obj [
    ("a", .obj [("type", .str "string"), ("items", .null), ("required", .null)]),
    ("b", .obj [("properties", .null), ("const", .int 1), ("type", .null)])])]

def leftOut : Fields :=
  [("properties", .obj [("a", .obj [("type", .str "string")]), ("b", .obj [("const", .int 1)])])]

theorem sameBut_properties {v w : Json} (h : listing v = listing w) :
    SameBut [("properties", v)] [("properties", w)] where
  other key hkey := by
    have hne : (Key.str "properties").canon ≠ key.canon :=
      canon_ne_of_not_mem (by decide) hkey _ List.mem_cons_self
    simp [Fields.get?, Key.same_iff, hne]
  properties := congrArg some h
  outlines key hkey := by
    have hne : (Key.str "properties").canon ≠ key.canon := by
      revert key
      decide
    simp [Fields.get?, Key.same_iff, hne]

theorem thinned_of_erased {fields : Fields} {taken : List Key} (h : Unnoticed fields taken)
    (hbelow : walkedBelow fields = [])
    (hbelow' : walkedBelow (Fields.eraseAll fields taken) = []) :
    Thinned Unnoticed (.obj fields) (.obj (Fields.eraseAll fields taken)) :=
  .node h (.refl _) (by rw [hbelow, hbelow']; exact .nil)

theorem null_keywords_free_iff_leftOut :
    Thinned Unnoticed (.obj spelledOut) (.obj leftOut) ∧ DeclaredSame spelledOut leftOut := by
  have htyped : Unnoticed [("type", .str "string"), ("items", .null), ("required", .null)]
      ["items", "required"] := ⟨by unfold NullsOf; decide, by decide⟩
  have hconstant : Unnoticed [("properties", .null), ("const", .int 1), ("type", .null)]
      ["properties", "type"] := ⟨by unfold NullsOf; decide, by decide⟩
  have hnulls : Unnoticed spelledOut ["items"] := ⟨by unfold NullsOf; decide, by decide⟩
  have hroot : Thinned Unnoticed (.obj spelledOut) (.obj leftOut) :=
    .node hnulls (sameBut_properties rfl)
      (.cons (thinned_of_erased htyped rfl rfl) (.cons (thinned_of_erased hconstant rfl rfl) .nil))
  have hfree := (null_keywords_free_iff nullable spelledOut leftOut).2.1
  exact ⟨hroot, hfree (by decide) (by decide) hroot fun _ => by decide⟩

/-- Two schemas that differ in a null type alone. The first is an array although it has neither the
type nor items. -/
theorem null_type_read_as_array :
    Thinned (NullsOf nullable) (.obj (("type", .null) :: titled)) (.obj titled) ∧
    (declare (standardBackend "T") (.obj (("type", .null) :: titled)) "T").outcome.1 =
      .ok "export type T = unknown[];" ∧
    (declare (standardBackend "T") (.obj titled) "T").outcome.1 =
      .ok "export type T = unknown;" ∧
    WrittenAsArray (("type", .null) :: titled) ∧
    Fields.value (("type", .null) :: titled) "items" = .null := by
  have htelling : ("type" : Key) ∈ telling ∧ ("type" : Key) ∈ nullable := by decide
  refine ⟨thinned_titled htelling.1 htelling.2, Inversion.eq_ok_of_toOption (by decide +kernel),
    titled_declared, ?_, by decide⟩
  unfold WrittenAsArray
  decide

end SchemaDecl
