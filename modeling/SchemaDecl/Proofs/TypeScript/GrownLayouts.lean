import SchemaDecl.Proofs.Schema.PropertyForms
import SchemaDecl.Proofs.TypeScript.AlikeRenderings
import SchemaDecl.Proofs.TypeScript.Layouts

/-! Layouts of what grows. A type that takes entries while it is rendered is a list
that stands right under an index signature, and there a layout does not say how long
the list is; nothing else grows. So a value that has grown is laid out as before, and
the names in a `type` that are rendered one after the other find the same layouts. -/

namespace SchemaDecl.TypeScript

open Schema (Address SameFace)

/-! Nodes that hold values of the same layout. -/

/-- The values are laid out in the same way and described by the same text. -/
structure LaidAlike (below : Layouter) (x y : Json) : Prop where
  layout : ∀ place depth, below place x depth = below place y depth
  description : descriptionOf x = descriptionOf y

theorem LaidAlike.refl (below : Layouter) (x : Json) : LaidAlike below x x :=
  ⟨fun _ _ => rfl, rfl⟩

/-- The values are laid out in the same way where they stand for additional properties. -/
def OpenAlike (below : Layouter) (x y : Json) : Prop :=
  ∀ depth, (below none x depth).loosened = (below none y depth).loosened

theorem LaidAlike.openAlike {below : Layouter} {x y : Json} (h : LaidAlike below x y) :
    OpenAlike below x y := fun depth => congrArg Layout.loosened (h.layout none depth)

/-- What stands below the nodes corresponds, part by part; the schemas of additional properties may
correspond in a way of their own. -/
structure PartsCorrespond (R S : Json → Json → Prop) (fs gs : Fields) : Prop where
  properties : List.Forall₂ (fun p q => p.1 = q.1 ∧ R p.2 q.2) (propertiesOf fs) (propertiesOf gs)
  items : List.Forall₂ R (Schema.items fs) (Schema.items gs)
  members : ∀ key ∈ Schema.combinators,
    List.Forall₂ R (entriesUnder fs key) (entriesUnder gs key)
  additional : List.Forall₂ S (objectUnder fs "additionalProperties")
    (objectUnder gs "additionalProperties")

theorem map_eq_of_forall₂ {α β γ : Type} {f : α → γ} {g : β → γ} {xs : List α} {ys : List β}
    (h : List.Forall₂ (fun x y => f x = g y) xs ys) : xs.map f = ys.map g := by
  rw [← List.forall₂_eq_eq_eq, List.forall₂_map_left_iff, List.forall₂_map_right_iff]
  exact h

theorem mapIdx_eq_of_forall₂ {α β γ : Type} {f : Nat → α → γ} {g : Nat → β → γ} {xs : List α}
    {ys : List β} (h : List.Forall₂ (fun x y => ∀ i, f i x = g i y) xs ys) :
    xs.mapIdx f = ys.mapIdx g := by
  refine List.ext_getElem (by simp [h.length_eq]) fun i hi hi' => ?_
  rw [List.getElem_mapIdx, List.getElem_mapIdx]
  exact h.get (by simpa using hi) (by simpa using hi') i

section
variable {below : Layouter} {fs gs : Fields} (hface : SameFace fs gs)
  (hparts : PartsCorrespond (LaidAlike below) (OpenAlike below) fs gs) (place : Option Address)
  (depth : Nat)
include hface hparts

theorem objectLayout_alike :
    objectLayout below place fs depth = objectLayout below place gs depth := by
  have hmembers := map_eq_of_forall₂ (f := memberLayout below place fs depth)
    (g := memberLayout below place gs depth) (hparts.properties.imp fun p q hpq => by
      rw [memberLayout, memberLayout, isRequired_alike (hface.view _), hpq.1, hpq.2.description,
        hpq.2.layout])
  have hsignature : signatureLayout below fs depth = signatureLayout below gs depth := by
    have houtline := outline_additionalOf (hface.view _)
    have hadditional := hparts.additional
    rw [objectUnder_additional, objectUnder_additional] at hadditional
    unfold signatureLayout
    generalize additionalOf fs = v at houtline hadditional ⊢
    generalize additionalOf gs = w at houtline hadditional ⊢
    cases v <;> cases w <;> first | rfl | (cases houtline <;> rfl) | skip
    · simp only [(List.forall₂_cons.1 hadditional).1 (depth + 1)]
  rw [objectLayout, objectLayout, hmembers, hsignature]

theorem arrayLayout_alike :
    arrayLayout below place fs depth = arrayLayout below place gs depth := by
  have houtline := hface.outline_eq "items" (by decide)
  have hitems := hparts.items
  unfold Schema.items at hitems
  unfold arrayLayout
  generalize Fields.value fs "items" = v at houtline hitems ⊢
  generalize Fields.value gs "items" = w at houtline hitems ⊢
  cases v <;> cases w <;> first | rfl | cases houtline | skip
  · have hall := mapIdx_eq_of_forall₂ (f := fun i item => below (onward place (.item i)) item depth)
      (g := fun i item => below (onward place (.item i)) item depth)
      (hitems.imp fun x y hxy i => hxy.layout _ _)
    cases hitems with
    | nil => rfl
    | cons _ _ => simp only [hall]
  · simp only [(List.forall₂_cons.1 hitems).1.layout]

theorem nameLayout_alike (name : Json) :
    nameLayout below place fs depth name = nameLayout below place gs depth name := by
  rw [nameLayout, nameLayout, objectLayout_alike hface hparts, arrayLayout_alike hface hparts]

theorem fieldsLayout_alike :
    fieldsLayout below place fs depth = fieldsLayout below place gs depth := by
  have halone : decidesAlone fs = decidesAlone gs := by
    simp only [decidesAlone, List.any_cons, List.any_nil, hface.value_eq "__is_any__" (by decide),
      hface.contains_eq "tsType" (.inl (by decide)), hface.contains_eq "const" (.inl (by decide)),
      hface.contains_eq "enum" (.inl (by decide))]
  have hread := hface.read
  have haloneLayout : aloneLayout fs = aloneLayout gs := by
    have hentries := entriesUnder_alike (hface.view decidesAlone)
    have henum : enumLayout fs = enumLayout gs := by
      rw [enumLayout, enumLayout, hentries "enum" (by decide), hentries "tsEnumNames" (by decide)]
    simp only [aloneLayout, henum, hread "tsType" (by decide), hread "const" (by decide),
      hface.value_eq "__is_any__" (by decide)]
  have hown : ownLayout below place fs depth = ownLayout below place gs depth := by
    rw [ownLayout, ownLayout, hface.hasStructure_eq, hface.typeNames_eq,
      funext (nameLayout_alike hface hparts place depth)]
  have hcombinators : combinatorJoins.flatMap (combinatorLayout below place fs depth) =
      combinatorJoins.flatMap (combinatorLayout below place gs depth) := by
    refine List.flatMap_congr fun c hc => ?_
    have hmembers := hparts.members c.1 (mem_combinators_of_join c hc)
    have hall := mapIdx_eq_of_forall₂
      (f := fun i member => below (onward place (.member c.1 i)) member depth)
      (g := fun i member => below (onward place (.member c.1 i)) member depth)
      (hmembers.imp fun x y hxy i => hxy.layout _ _)
    rw [combinatorLayout, combinatorLayout, hall]
    generalize entriesUnder fs c.1 = xs at hmembers
    generalize entriesUnder gs c.1 = ys at hmembers ⊢
    cases hmembers with
    | nil => rfl
    | cons _ _ => rw [if_neg (List.cons_ne_nil _ _), if_neg (List.cons_ne_nil _ _)]
  rw [fieldsLayout, fieldsLayout, halone, haloneLayout, hown, hcombinators]
end

/-! Growth. -/

/-- Nodes that are laid out in the same way under each name of a type and as a whole. -/
structure SameLayouts (below : Layouter) (fs gs : Fields) : Prop where
  name : ∀ place depth name,
    nameLayout below place fs depth name = nameLayout below place gs depth name
  fields : ∀ place depth, fieldsLayout below place fs depth = fieldsLayout below place gs depth
  description : Fields.value fs "description" = Fields.value gs "description"

theorem SameLayouts.refl (below : Layouter) (fields : Fields) : SameLayouts below fields fields :=
  ⟨fun _ _ _ => rfl, fun _ _ => rfl, rfl⟩

theorem SameLayouts.trans {below : Layouter} {fs gs hs : Fields} (h : SameLayouts below fs gs)
    (h' : SameLayouts below gs hs) : SameLayouts below fs hs :=
  ⟨fun place depth name => (h.name place depth name).trans (h'.name place depth name),
    fun place depth => (h.fields place depth).trans (h'.fields place depth),
    h.description.trans h'.description⟩

/-- The keywords under which values grow. -/
def growing : List Key := "properties" :: Schema.outlinedKeys

/-- Values that can stand for each other under a keyword, as nodes that correspond or as lists of
them. -/
inductive Replaces (R S : Json → Json → Prop) : Key → Json → Json → Prop
  | properties {ps qs : Fields} : List.Forall₂ (fun p q => p.1 = q.1 ∧ R p.2 q.2) ps qs →
      Replaces R S "properties" (.obj ps) (.obj qs)
  | item {inner new : Fields} : R (.obj inner) (.obj new) →
      Replaces R S "items" (.obj inner) (.obj new)
  | additional {inner new : Fields} : S (.obj inner) (.obj new) →
      Replaces R S "additionalProperties" (.obj inner) (.obj new)
  | list {key : Key} {xs ys : List Json} : key ∈ ("items" : Key) :: Schema.combinators →
      List.Forall₂ R xs ys → Replaces R S key (.arr xs) (.arr ys)

section
variable {R S : Json → Json → Prop} {fields : Fields} {key : Key} {v w : Json}
  (hvalue : Fields.value fields key = v) (h : Replaces R S key v w)
include h

theorem Replaces.mem : key ∈ growing := by
  cases h with
  | properties _ | item _ | additional _ => decide
  | list hkey _ => revert key; decide

theorem get?_set_growing {l : Key} (hl : l ∈ growing ++ Schema.readKeys) (hne : l ≠ key) :
    Fields.get? (Fields.set fields key w) l = Fields.get? fields l := by
  have hapart : ∀ key ∈ growing, ∀ l ∈ growing ++ Schema.readKeys,
      l ≠ key → key.canon ≠ l.canon := by decide
  exact Fields.get?_set_other _ _ (hapart key h.mem l hl hne)

include hvalue

/-- A node with a value in the place of another looks the same. -/
theorem sameFace_set : SameFace fields (Fields.set fields key w) := by
  have hget : Fields.get? fields key = some v := Fields.get?_of_value hvalue (by cases h <;> simp)
  refine ⟨fun l hl => ?_, ?_, fun l hl => ?_⟩
  · have hread : ∀ l ∈ Schema.readKeys, l ∉ growing := by decide
    have hne : l ≠ key := fun heq => hread l hl (heq ▸ h.mem)
    rw [get?_set_growing h (List.mem_append_right _ hl) hne]
  · by_cases hsame : "properties" = key
    · rw [hsame, hget, Fields.get?_set_same _ _ rfl]
      cases h with
      | properties hall =>
        exact congrArg some (Schema.propertiesOutline_of_sameKeys _ _ (.obj hall))
      | item _ | additional _ => exact absurd hsame (by decide)
      | list hkey _ => exact absurd (hsame ▸ hkey) (by decide)
    · rw [get?_set_growing h (by decide) hsame]
  · by_cases hsame : l = key
    · rw [hsame, hget, Fields.get?_set_same _ _ rfl]
      cases h with
      | properties _ => exact absurd (hsame ▸ hl) (by decide)
      | item _ | additional _ => rfl
      | list _ hall => exact congrArg some (Schema.outline_of_forall₂ hall)
    · rw [get?_set_growing h (by simp [growing, hl]) hsame]

theorem partsCorrespond_set (hR : ∀ x, R x x) (hS : ∀ x, S x x) :
    PartsCorrespond R S fields (Fields.set fields key w) := by
  have hset := Fields.value_set_same fields w (rfl : key.canon = key.canon)
  have hother : ∀ l ∈ growing, l ≠ key →
      Fields.value (Fields.set fields key w) l = Fields.value fields l := fun l hl hne =>
    Fields.value_congr (get?_set_growing h (List.mem_append_left _ hl) hne)
  have hsame : ∀ xs : List Json, List.Forall₂ R xs xs := fun xs =>
    List.forall₂_same.2 fun x _ => hR x
  have hmembers : ∀ l ∈ Schema.combinators, l ∈ growing ∧ l ≠ "properties" ∧ l ≠ "items" ∧
      l ≠ "additionalProperties" := by decide
  refine ⟨?_, ?_, fun l hl => ?_, ?_⟩
  · by_cases hkey : "properties" = key
    · cases h with
      | properties hall => simpa only [propertiesOf, hvalue, hset] using hall
      | item _ | additional _ => exact absurd hkey (by decide)
      | list hmem _ => exact absurd (hkey ▸ hmem) (by decide)
    · rw [propertiesOf, propertiesOf, hother _ (by decide) hkey]
      exact List.forall₂_same.2 fun p _ => ⟨rfl, hR p.2⟩
  · by_cases hkey : "items" = key
    · cases h with
      | properties _ | additional _ => exact absurd hkey (by decide)
      | item hitem => simpa only [Schema.items, hvalue, hset] using .cons hitem .nil
      | list _ hall => subst hkey; simpa only [Schema.items, hvalue, hset] using hall
    · rw [Schema.items, Schema.items, hother _ (by decide) hkey]
      exact hsame _
  · obtain ⟨hgrowing, hproperties, hitems, hadditional⟩ := hmembers l hl
    by_cases hkey : l = key
    · cases h with
      | properties _ => exact absurd hkey hproperties
      | item _ => exact absurd hkey hitems
      | additional _ => exact absurd hkey hadditional
      | list _ hall => subst hkey; simpa only [entriesUnder, hvalue, hset] using hall
    · rw [entriesUnder, entriesUnder, hother _ hgrowing hkey]
      exact hsame _
  · by_cases hkey : "additionalProperties" = key
    · cases h with
      | properties _ | item _ => exact absurd hkey (by decide)
      | additional hnode => simpa only [objectUnder, hvalue, hset] using .cons hnode .nil
      | list hmem _ => exact absurd (hkey ▸ hmem) (by decide)
    · rw [objectUnder, objectUnder, hother _ (by decide) hkey]
      exact List.forall₂_same.2 fun x _ => hS x
end

section
variable {below : Layouter}

theorem sameLayouts_set {fields : Fields} {key : Key} {v w : Json}
    (hvalue : Fields.value fields key = v)
    (h : Replaces (LaidAlike below) (OpenAlike below) key v w) :
    SameLayouts below fields (Fields.set fields key w) := by
  have hface := sameFace_set hvalue h
  have hparts := partsCorrespond_set hvalue h (.refl below) fun _ _ => rfl
  exact ⟨nameLayout_alike hface hparts, fieldsLayout_alike hface hparts,
    hface.value_eq "description" (by decide)⟩

theorem sameLayouts_mapObject {fields : Fields} {key : Key} {f : Fields → Fields}
    (h : ∀ inner, Replaces (LaidAlike below) (OpenAlike below) key (.obj inner) (.obj (f inner))) :
    SameLayouts below fields (mapObject fields key f) := by
  unfold mapObject
  split
  · rename_i inner hinner
    exact sameLayouts_set hinner (h inner)
  · exact .refl below fields

theorem sameLayouts_foldl {α : Type} {f : Fields → α → Fields} {xs : List α}
    (h : ∀ fields, ∀ x ∈ xs, SameLayouts below fields (f fields x)) (fields : Fields) :
    SameLayouts below fields (xs.foldl f fields) := by
  induction xs generalizing fields with
  | nil => exact .refl below fields
  | cons x xs ih =>
    exact .trans (h fields x List.mem_cons_self)
      (ih (fun fields y hy => h fields y (List.mem_cons_of_mem _ hy)) _)

variable {grow : Json → Json} (hgrow : ∀ x, LaidAlike below x (grow x))
  (hnode : ∀ inner, ∃ new, grow (.obj inner) = .obj new)
  (htake : ∀ inner, OpenAlike below (.obj inner) (.obj (takeUndefined inner)))
include hgrow

theorem sameLayouts_mapList (fields : Fields) {key : Key}
    (hkey : key ∈ ("items" : Key) :: Schema.combinators) :
    SameLayouts below fields (mapList fields key grow) := by
  unfold mapList
  split
  · rename_i entries hentries
    refine sameLayouts_set hentries (.list hkey ?_)
    rw [List.forall₂_map_right_iff]
    exact List.forall₂_same.2 fun x _ => hgrow x
  · exact .refl below fields

include hnode

theorem laidAlike_growFields (inner : Fields) :
    LaidAlike below (.obj inner) (.obj (growFields grow inner)) := by
  obtain ⟨new, hnew⟩ := hnode inner
  have h := hgrow (.obj inner)
  rwa [hnew, show new = growFields grow inner by rw [growFields, hnew, fieldsOf]] at h

include htake

theorem sameLayouts_growAs (fields : Fields) (name : Json) :
    SameLayouts below fields (growAs grow fields name) := by
  have hfields := laidAlike_growFields hgrow hnode
  unfold growAs
  split
  · refine .trans (sameLayouts_mapObject fun ps => .properties ?_)
      (sameLayouts_mapObject fun inner => .additional fun depth =>
        ((hfields inner).openAlike depth).trans (htake _ depth))
    rw [List.forall₂_map_right_iff]
    exact List.forall₂_same.2 fun p _ => ⟨rfl, hgrow p.2⟩
  · exact .trans (sameLayouts_mapList hgrow fields (by decide))
      (sameLayouts_mapObject fun inner => .item (hfields inner))
  · exact .refl below fields

theorem exists_growNode (fields : Fields) :
    ∃ new, growNode grow (.obj fields) = .obj new ∧ SameLayouts below fields new := by
  rw [growNode]
  split
  · exact ⟨fields, rfl, .refl below fields⟩
  · refine ⟨_, rfl, .trans ?_ (sameLayouts_foldl (fun fields c hc => ?_) _)⟩
    · exact sameLayouts_foldl (fun fields name _ =>
        sameLayouts_growAs hgrow hnode htake fields name) _
    · exact sameLayouts_mapList hgrow fields (List.mem_cons_of_mem _ (mem_combinators_of_join c hc))
end

theorem loosened_layout_listed {fields : Fields} {entries : List Json}
    (h : Fields.get? fields "tsType" = some (.arr entries)) (levels depth : Nat)
    (place : Option Address) :
    (layout (levels + 1) place (.obj fields) depth).loosened = .leaf .listed := by
  have halone : decidesAlone fields = true := by simp [decidesAlone, Fields.contains, h]
  simp only [layout_obj, fieldsLayout, halone, if_true, aloneLayout, h]
  rfl

/-- A list of types that takes entries is still a list of types. -/
theorem openAlike_takeUndefined (levels : Nat) (inner : Fields) :
    OpenAlike (layout levels) (.obj inner) (.obj (takeUndefined inner)) := by
  intro depth
  cases levels with
  | zero => rfl
  | succ levels =>
    unfold takeUndefined
    split
    · rename_i entries hentries
      rw [loosened_layout_listed (Fields.get?_of_value hentries (by simp)),
        loosened_layout_listed (Fields.get?_set_same _ _ rfl)]
    · rfl

theorem exists_grown (levels : Nat) (fields : Fields) :
    ∃ new, grown levels (.obj fields) = .obj new := by
  cases levels with
  | zero => exact ⟨fields, rfl⟩
  | succ levels =>
    rw [grown, growNode]
    split
    · exact ⟨fields, rfl⟩
    · exact ⟨_, rfl⟩

/-- A value that has grown is laid out as before, by induction on the levels it grew on. -/
theorem laidAlike_grown (levels below : Nat) (x : Json) :
    LaidAlike (layout below) x (grown levels x) := by
  induction levels generalizing below x with
  | zero => exact .refl _ x
  | succ levels ih =>
    cases x with
    | obj fields =>
      obtain ⟨new, hnew, hsame⟩ := exists_growNode (ih (below - 1)) (exists_grown levels)
        (openAlike_takeUndefined _) fields
      rw [grown, hnew]
      cases below with
      | zero => exact ⟨fun _ _ => rfl, hsame.description⟩
      | succ below => exact ⟨hsame.fields, hsame.description⟩
    | _ => exact .refl _ _

/-- What a node looks like to the next name in its `type` makes no difference. -/
theorem nameLayout_afterName (options : Options) (levels : Nat) (place : Option Address)
    (fields : Fields) (depth : Nat) (name : Json) :
    nameLayout (layout levels) place (afterName options fields name) depth =
      nameLayout (layout levels) place fields depth := by
  unfold afterName
  split
  · rename_i hstrict
    have hleft : ∀ x, leftAfter options x = grown x.depth x := fun x => if_pos hstrict
    have hsame : SameLayouts (layout levels) fields (growAs (leftAfter options) fields name) := by
      refine sameLayouts_growAs (fun x => ?_) (fun inner => ?_) (openAlike_takeUndefined _) fields
        name
      · rw [hleft]
        exact laidAlike_grown _ _ x
      · rw [hleft]
        exact exists_grown _ inner
    exact funext fun name => (hsame.name place depth name).symm
  · rfl

end SchemaDecl.TypeScript
