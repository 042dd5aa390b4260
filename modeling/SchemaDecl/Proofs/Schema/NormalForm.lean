import SchemaDecl.Proofs.Json.FieldLaws
import SchemaDecl.Proofs.Schema.Children
import SchemaDecl.Proofs.Text.Settled
import SchemaDecl.Schema.Normal

/-! The normal form of a single node, keyword by keyword. A node is in normal
form if none of the four rewritings would change it. Normalizing puts a node
into normal form provided that the table of type names leads to names it leaves
alone, and rewriting the children below a node keeps the form. -/

namespace SchemaDecl.Schema

open TypeNames

namespace Normal

/-- The table leads only to names that it leaves alone, and to nothing but names. -/
structure Closed (table : Fields) : Prop where
  fixed : ∀ entry ∈ table, canonical table entry.2 = entry.2
  named : ∀ entry ∈ table, ∃ name, entry.2 = .str name

theorem canonical_str (table : Fields) (name : String) :
    canonical table (.str name) =
      (Fields.get? table (.str (Text.lower name))).getD (.str (Text.lower name)) := rfl

theorem canonical_canonical {table : Fields} (hc : Closed table) (type : Json) :
    canonical table (canonical table type) = canonical table type := by
  cases type with
  | str name =>
    rw [canonical_str]
    cases hg : Fields.get? table (.str (Text.lower name)) with
    | some v =>
      obtain ⟨k, hk⟩ := Fields.mem_of_get? hg
      exact hc.fixed _ hk
    | none => rw [Option.getD_none, canonical_str, Text.lower_lower, hg, Option.getD_none]
  | _ => rfl

theorem canonical_named {table : Fields} (hc : Closed table) (name : String) :
    ∃ name', canonical table (.str name) = .str name' := by
  rw [canonical_str]
  cases hg : Fields.get? table (.str (Text.lower name)) with
  | some v =>
    obtain ⟨k, hk⟩ := Fields.mem_of_get? hg
    exact hc.named _ hk
  | none => exact ⟨_, rfl⟩

theorem canonicalType_canonicalType {table : Fields} (hc : Closed table) (type : Json) :
    canonicalType table (canonicalType table type) = canonicalType table type := by
  cases type with
  | arr types =>
    simp only [canonicalType, List.map_map]
    congr 1
    exact List.map_congr_left fun t _ => canonical_canonical hc t
  | str name =>
    obtain ⟨name', hname⟩ := canonical_named hc name
    have hfixed := canonical_canonical hc (.str name)
    simp only [canonicalType, hname] at hfixed ⊢
    exact hfixed
  | _ => rfl

/-! What each keyword of a normalized node holds. -/

theorem value_withCanonicalType_type (table fields : Fields) :
    Fields.value (withCanonicalType table fields) "type" =
      if (Fields.value fields "type").truthy then canonicalType table (Fields.value fields "type")
      else Fields.value fields "type" := by
  dsimp only [withCanonicalType]
  split
  · exact Fields.value_set_same fields _ rfl
  · rfl

theorem get?_withCanonicalType_other (table fields : Fields) {l : Key}
    (h : (Key.str "type").canon ≠ l.canon) :
    Fields.get? (withCanonicalType table fields) l = Fields.get? fields l := by
  dsimp only [withCanonicalType]
  split
  · exact Fields.get?_set_other fields _ h
  · rfl

theorem get?_withOneItem_other (fields : Fields) {l : Key} (h : (Key.str "items").canon ≠ l.canon) :
    Fields.get? (withOneItem fields) l = Fields.get? fields l := by
  unfold withOneItem
  split
  · exact Fields.get?_set_other fields _ h
  · rfl

theorem get?_withStrippedRequired_other (fields : Fields) {l : Key}
    (h : (Key.str "required").canon ≠ l.canon) :
    Fields.get? (withStrippedRequired fields) l = Fields.get? fields l := by
  unfold withStrippedRequired
  split
  · exact Fields.get?_set_other fields _ h
  · rfl

theorem get?_withStrippedNames_other (fields : Fields) {l : Key}
    (hp : (Key.str "properties").canon ≠ l.canon) (hr : (Key.str "required").canon ≠ l.canon) :
    Fields.get? (withStrippedNames fields) l = Fields.get? fields l := by
  unfold withStrippedNames
  split
  · rw [get?_withStrippedRequired_other _ hr, Fields.get?_set_other fields _ hp]
  · rfl

/-- What is left under `items` beside a type. -/
def oneItem : Json → Json → Json
  | .str "array", .arr (item :: _) => item
  | _, items => items

def strippedProperties : Json → Json
  | .obj properties => .obj (stripProperties properties)
  | other => other

def strippedRequired : Json → Json
  | .arr names => .arr (names.map stripName)
  | other => other

theorem value_withOneItem_items (fields : Fields) :
    Fields.value (withOneItem fields) "items" =
      oneItem (Fields.value fields "type") (Fields.value fields "items") := by
  unfold withOneItem
  split
  · rename_i item rest htype hitems
    rw [Fields.value_set_same fields _ rfl, htype, hitems]
    rfl
  · rename_i hno
    unfold oneItem
    split
    · rename_i item rest htype hitems
      exact absurd hitems (hno item rest htype)
    · rfl

theorem value_withStrippedNames_properties (fields : Fields) :
    Fields.value (withStrippedNames fields) "properties" =
      strippedProperties (Fields.value fields "properties") := by
  cases hv : Fields.value fields "properties" with
  | obj properties =>
    simp only [withStrippedNames, hv]
    rw [Fields.value, get?_withStrippedRequired_other _ (by decide), ← Fields.value,
      Fields.value_set_same fields _ rfl]
    rfl
  | _ => simp only [withStrippedNames, hv, strippedProperties]

theorem value_withStrippedNames_required {fields properties : Fields}
    (h : Fields.value fields "properties" = .obj properties) :
    Fields.value (withStrippedNames fields) "required" =
      strippedRequired (Fields.value fields "required") := by
  have hrequired : Fields.value (Fields.set fields "properties" (.obj (stripProperties properties)))
      "required" = Fields.value fields "required" := Fields.value_set_other fields _ (by decide)
  cases hv : Fields.value fields "required" with
  | arr names =>
    simp only [withStrippedNames, h, withStrippedRequired, hrequired, hv]
    exact Fields.value_set_same _ _ rfl
  | _ => simp only [withStrippedNames, h, withStrippedRequired, hrequired, hv, strippedRequired]

/-! The same, for the whole step. -/

section
variable (table fields : Fields)

/-- A keyword that no rewriting is about. -/
theorem get?_node_other {l : Key}
    (hrefs : ∀ key ∈ ([("$ref" : Key), "$$ref"] : List Key), key.canon ≠ l.canon)
    (htype : (Key.str "type").canon ≠ l.canon) (hitems : (Key.str "items").canon ≠ l.canon)
    (hp : (Key.str "properties").canon ≠ l.canon) (hr : (Key.str "required").canon ≠ l.canon) :
    Fields.get? (node table fields) l = Fields.get? fields l := by
  rw [node, get?_withStrippedNames_other _ hp hr, get?_withOneItem_other _ hitems,
    get?_withCanonicalType_other _ _ htype, Fields.get?_eraseAll_other _ hrefs]

theorem get?_node_reference {l : Key} (h : l ∈ ([("$ref" : Key), "$$ref"] : List Key)) :
    Fields.get? (node table fields) l = none := by
  have hother : (Key.str "type").canon ≠ l.canon ∧ (Key.str "items").canon ≠ l.canon ∧
      (Key.str "properties").canon ≠ l.canon ∧ (Key.str "required").canon ≠ l.canon := by
    revert l
    decide
  obtain ⟨htype, hitems, hp, hr⟩ := hother
  rw [node, get?_withStrippedNames_other _ hp hr, get?_withOneItem_other _ hitems,
    get?_withCanonicalType_other _ _ htype, Fields.get?_eraseAll_same _ h]

theorem value_node_type : Fields.value (node table fields) "type" =
    if (Fields.value fields "type").truthy then canonicalType table (Fields.value fields "type")
    else Fields.value fields "type" := by
  rw [node, Fields.value, get?_withStrippedNames_other _ (by decide) (by decide),
    get?_withOneItem_other _ (by decide), ← Fields.value, value_withCanonicalType_type,
    Fields.value_eraseAll_other _ (by decide)]

theorem value_node_items : Fields.value (node table fields) "items" =
    oneItem (Fields.value (node table fields) "type") (Fields.value fields "items") := by
  have htype : Fields.value (node table fields) "type" =
      Fields.value (withCanonicalType table (Fields.eraseAll fields ["$ref", "$$ref"])) "type" := by
    rw [node, Fields.value, get?_withStrippedNames_other _ (by decide) (by decide),
      get?_withOneItem_other _ (by decide), ← Fields.value]
  have hitems : Fields.value (withCanonicalType table (Fields.eraseAll fields ["$ref", "$$ref"]))
      "items" = Fields.value fields "items" := by
    rw [Fields.value, get?_withCanonicalType_other _ _ (by decide), ← Fields.value,
      Fields.value_eraseAll_other _ (by decide)]
  rw [htype, node, Fields.value, get?_withStrippedNames_other _ (by decide) (by decide),
    ← Fields.value, value_withOneItem_items, hitems]

theorem value_beforeNames {l : Key}
    (hrefs : ∀ key ∈ ([("$ref" : Key), "$$ref"] : List Key), key.canon ≠ l.canon)
    (htype : (Key.str "type").canon ≠ l.canon) (hitems : (Key.str "items").canon ≠ l.canon) :
    Fields.value (withOneItem
      (withCanonicalType table (Fields.eraseAll fields ["$ref", "$$ref"]))) l =
      Fields.value fields l := by
  rw [Fields.value, get?_withOneItem_other _ hitems, get?_withCanonicalType_other _ _ htype,
    ← Fields.value, Fields.value_eraseAll_other _ hrefs]

theorem value_node_properties : Fields.value (node table fields) "properties" =
    strippedProperties (Fields.value fields "properties") := by
  rw [node, value_withStrippedNames_properties,
    value_beforeNames _ _ (by decide) (by decide) (by decide)]

theorem value_node_required {properties : Fields}
    (h : Fields.value fields "properties" = .obj properties) :
    Fields.value (node table fields) "required" =
      strippedRequired (Fields.value fields "required") := by
  rw [node, value_withStrippedNames_required
    ((value_beforeNames _ _ (by decide) (by decide) (by decide)).trans h),
    value_beforeNames _ _ (by decide) (by decide) (by decide)]

theorem get?_node_combinator {key : Key} (h : key ∈ combinators) :
    Fields.get? (node table fields) key = Fields.get? fields key := by
  have hother : (∀ ref ∈ ([("$ref" : Key), "$$ref"] : List Key), ref.canon ≠ key.canon) ∧
      (Key.str "type").canon ≠ key.canon ∧ (Key.str "items").canon ≠ key.canon ∧
      (Key.str "properties").canon ≠ key.canon ∧ (Key.str "required").canon ≠ key.canon := by
    revert key
    decide
  obtain ⟨hrefs, htype, hitems, hp, hr⟩ := hother
  exact get?_node_other _ _ hrefs htype hitems hp hr

theorem value_node_combinator {key : Key} (h : key ∈ combinators) :
    Fields.value (node table fields) key = Fields.value fields key :=
  Fields.value_congr (get?_node_combinator table fields h)

/-- Without a mapping of properties nothing is required of them. -/
theorem get?_node_required (h : ∀ properties, Fields.value fields "properties" ≠ .obj properties) :
    Fields.get? (node table fields) "required" = Fields.get? fields "required" := by
  rw [← value_beforeNames table fields (by decide) (by decide) (by decide)] at h
  have hstays : ∀ inner : Fields,
      (∀ properties, Fields.value inner "properties" ≠ .obj properties) →
        withStrippedNames inner = inner := by
    intro inner hinner
    unfold withStrippedNames
    split
    · rename_i properties hproperties
      exact absurd hproperties (hinner properties)
    · rfl
  rw [node, hstays _ h, get?_withOneItem_other _ (by decide),
    get?_withCanonicalType_other _ _ (by decide), Fields.get?_eraseAll_other _ (by decide)]
end

/-! Stripped names. -/

theorem stripKey_stripKey (key : Key) : stripKey (stripKey key) = stripKey key := by
  cases key with
  | str s => exact congrArg Key.str (Text.strip_strip s)
  | _ => rfl

theorem stripName_stripName (name : Json) : stripName (stripName name) = stripName name := by
  cases name with
  | str s => exact congrArg Json.str (Text.strip_strip s)
  | _ => rfl

/-- No two keys are the same, and no key has blanks around it. -/
def Stripped (properties : Fields) : Prop :=
  Fields.Separate properties ∧ ∀ f ∈ properties, stripKey f.1 = f.1

theorem stripped_stripProperties (properties : Fields) : Stripped (stripProperties properties) := by
  refine ⟨Fields.separate_ofList _, fun f hf => ?_⟩
  obtain ⟨g, hg, hkey⟩ := (Fields.mem_ofList hf).1
  obtain ⟨p, _, rfl⟩ := List.mem_map.1 hg
  rw [← hkey]
  exact stripKey_stripKey p.1

theorem stripProperties_of_stripped {properties : Fields} (h : Stripped properties) :
    stripProperties properties = properties := by
  have hmap : (properties.map fun p => (stripKey p.1, p.2)) = properties := by
    conv => rhs; rw [← List.map_id properties]
    apply List.map_congr_left
    intro p hp
    simp only [h.2 p hp, id]
  rw [stripProperties, hmap, Fields.ofList_of_separate h.1]

theorem stripped_withValues {properties : Fields} (h : Stripped properties) (new : List Json) :
    Stripped (Fields.withValues properties new) := by
  refine ⟨Fields.separate_withValues h.1 new, fun f hf => ?_⟩
  have hkey : f.1 ∈ properties.map Prod.fst := by
    rw [← Fields.withValues_fst properties new]
    exact List.mem_map_of_mem hf
  obtain ⟨g, hg, hgf⟩ := List.mem_map.1 hkey
  rw [← hgf]
  exact h.2 g hg

/-- A value of a stripped object was there before. -/
theorem mem_stripProperties {properties : Fields} {f : Key × Json}
    (h : f ∈ stripProperties properties) : ∃ k, (k, f.2) ∈ properties := by
  obtain ⟨g, hg, hvalue⟩ := (Fields.mem_ofList h).2
  obtain ⟨p, hp, rfl⟩ := List.mem_map.1 hg
  exact ⟨p.1, hvalue ▸ hp⟩

/-! Nodes in normal form. -/

/-- A node that none of the rewritings would change. -/
structure NormalNode (table fields : Fields) : Prop where
  references : ∀ key ∈ ([("$ref" : Key), "$$ref"] : List Key), Fields.get? fields key = none
  type : (Fields.value fields "type").truthy = true →
    canonicalType table (Fields.value fields "type") = Fields.value fields "type"
  items : oneItem (Fields.value fields "type") (Fields.value fields "items") =
    Fields.value fields "items"
  properties : ∀ properties, Fields.value fields "properties" = .obj properties →
    Stripped properties
  required : ∀ properties, Fields.value fields "properties" = .obj properties →
    strippedRequired (Fields.value fields "required") = Fields.value fields "required"

theorem withCanonicalType_of_normal {table fields : Fields} (h : NormalNode table fields) :
    withCanonicalType table fields = fields := by
  dsimp only [withCanonicalType]
  split
  · rename_i htruthy
    rw [h.type htruthy]
    exact Fields.set_of_value rfl fun hnull => by simp [hnull, Json.truthy] at htruthy
  · rfl

theorem oneItem_eq_self_iff {type items : Json} :
    oneItem type items = items ↔
      (type = .str "array" → ∀ item rest, items ≠ .arr (item :: rest)) := by
  constructor
  · rintro h rfl item rest rfl
    -- a list is never its own first item
    have hdepth := congrArg Json.depth (show item = .arr (item :: rest) from h)
    simp only [Json.depth, Json.depthItems] at hdepth
    omega
  · intro h
    unfold oneItem
    split
    · rename_i item rest
      exact absurd rfl (h rfl item rest)
    · rfl

theorem withOneItem_of_not_list {fields : Fields} (h : Fields.value fields "type" = .str "array" →
    ∀ item rest, Fields.value fields "items" ≠ .arr (item :: rest)) :
    withOneItem fields = fields := by
  unfold withOneItem
  split
  · rename_i item rest htype hitems
    exact absurd hitems (h htype item rest)
  · rfl

theorem withOneItem_of_normal {table fields : Fields} (h : NormalNode table fields) :
    withOneItem fields = fields := withOneItem_of_not_list (oneItem_eq_self_iff.1 h.items)

theorem withStrippedNames_of_normal {table fields : Fields} (h : NormalNode table fields) :
    withStrippedNames fields = fields := by
  cases hv : Fields.value fields "properties" with
  | obj properties =>
    have hset : Fields.set fields "properties" (.obj (stripProperties properties)) = fields := by
      rw [stripProperties_of_stripped (h.properties properties hv)]
      exact Fields.set_of_value hv (by simp)
    simp only [withStrippedNames, hv, hset]
    have hrequired := h.required properties hv
    cases hr : Fields.value fields "required" with
    | arr names =>
      rw [hr, strippedRequired] at hrequired
      simp only [withStrippedRequired, hr]
      exact Fields.set_of_value (hr.trans hrequired.symm) (by simp)
    | _ => simp only [withStrippedRequired, hr]
  | _ => simp only [withStrippedNames, hv]

/-- Normalizing a node in normal form changes nothing. -/
theorem node_of_normal {table fields : Fields} (h : NormalNode table fields) :
    node table fields = fields := by
  rw [node, Fields.eraseAll_of_get?_none h.references, withCanonicalType_of_normal h,
    withOneItem_of_normal h, withStrippedNames_of_normal h]

/-- The items of a node are no list that starts with a list. -/
def SimpleItems (fields : Fields) : Prop :=
  ∀ xs rest, Fields.value fields "items" ≠ .arr (.arr xs :: rest)

def startsWithList : Json → Bool
  | .arr (.arr _ :: _) => true
  | _ => false

theorem simpleItems_iff {fields : Fields} :
    SimpleItems fields ↔ startsWithList (Fields.value fields "items") = false := by
  unfold SimpleItems startsWithList
  split <;> simp_all

instance : DecidablePred SimpleItems := fun _ => decidable_of_iff _ simpleItems_iff.symm

theorem oneItem_oneItem {type items : Json} (h : ∀ xs rest, items ≠ .arr (.arr xs :: rest)) :
    oneItem type (oneItem type items) = oneItem type items := by
  by_cases hone : ∃ item rest, type = .str "array" ∧ items = .arr (item :: rest)
  · obtain ⟨item, rest, rfl, rfl⟩ := hone
    cases item with
    | arr xs => exact absurd rfl (h xs rest)
    | _ => rfl
  · have hsame : oneItem type items = items := oneItem_eq_self_iff.2
      fun htype item rest hitems => hone ⟨item, rest, htype, hitems⟩
    rw [hsame, hsame]

theorem normalNode_node {table fields : Fields} (hc : Closed table) (hi : SimpleItems fields) :
    NormalNode table (node table fields) where
  references _ h := get?_node_reference table fields h
  type htruthy := by
    rw [value_node_type] at htruthy ⊢
    split
    · exact canonicalType_canonicalType hc _
    · rename_i hno
      rw [if_neg hno] at htruthy
      exact absurd htruthy hno
  items := by
    rw [value_node_items]
    exact oneItem_oneItem hi
  properties properties h := by
    rw [value_node_properties] at h
    cases hv : Fields.value fields "properties" with
    | obj old =>
      rw [hv, strippedProperties] at h
      rw [← Json.obj.inj h]
      exact stripped_stripProperties old
    | _ => rw [hv] at h; cases h
  required properties h := by
    rw [value_node_properties] at h
    cases hv : Fields.value fields "properties" with
    | obj old =>
      rw [value_node_required table fields hv]
      cases Fields.value fields "required" with
      | arr names =>
        simp only [strippedRequired, List.map_map]
        congr 1
        exact List.map_congr_left fun name _ => stripName_stripName name
      | _ => rfl
    | _ => rw [hv] at h; cases h

theorem not_list_withItems {fields : Fields} {new : List Json}
    (hk : List.Forall₂ Kept (Schema.items fields) new)
    (h : ∀ item rest, Fields.value fields "items" ≠ .arr (item :: rest)) (item : Json)
    (rest : List Json) : Fields.value (withItems fields new) "items" ≠ .arr (item :: rest) := by
  by_cases hs : IsSingle (Fields.value fields "items")
  · obtain ⟨y, _, hy, hitems⟩ := value_withItems_of_single hs hk
    rw [hitems]
    exact hy.2 _
  · cases hv : Fields.value fields "items" with
    | null => simp only [withItems, hv]; simp
    | arr old =>
      cases old with
      | cons x xs => exact absurd hv (h x xs)
      | nil =>
        simp only [Schema.items, hv, List.forall₂_nil_left_iff] at hk
        rw [hk]
        simp only [withItems, hv, Fields.value_set_same fields _ rfl]
        simp
    | _ => exact absurd ⟨by simp, by simp⟩ (hv ▸ hs)

/-- Items that are no filled list stay so when the children are written. -/
theorem not_list_withChildren {fields : Fields} {new : List Json}
    (hk : List.Forall₂ Kept (childValues fields) new)
    (h : ∀ item rest, Fields.value fields "items" ≠ .arr (item :: rest)) (item : Json)
    (rest : List Json) : Fields.value (withChildren fields new) "items" ≠ .arr (item :: rest) := by
  rw [value_withChildren_items]
  apply not_list_withItems (kept_items hk)
  rw [Fields.value_congr (get?_withProperties_other fields _ (by decide))]
  exact h

/-- New children below a node keep its normal form. -/
theorem normalNode_withChildren {table fields : Fields} (h : NormalNode table fields)
    {new : List Json} (hk : List.Forall₂ Kept (childValues fields) new) :
    NormalNode table (withChildren fields new) := by
  have htype : Fields.value (withChildren fields new) "type" = Fields.value fields "type" :=
    value_withChildren_other fields new (by decide)
  have hrequired : Fields.value (withChildren fields new) "required" =
      Fields.value fields "required" := value_withChildren_other fields new (by decide)
  refine ⟨?_, ?_, ?_, ?_, ?_⟩
  · intro key hkey
    have hother : ∀ child ∈ childKeys, child.canon ≠ key.canon := by
      revert key
      decide
    rw [get?_withChildren_other fields new hother, h.references key hkey]
  · rw [htype]
    exact h.type
  · rw [oneItem_eq_self_iff, htype]
    intro harray
    exact not_list_withChildren hk (oneItem_eq_self_iff.1 h.items harray)
  · intro properties hv
    obtain ⟨old, hold, rfl⟩ := exists_properties_of_withChildren hv
    exact stripped_withValues (h.properties old hold) _
  · intro properties hv
    obtain ⟨old, hold, _⟩ := exists_properties_of_withChildren hv
    rw [hrequired]
    exact h.required old hold

end Normal

end SchemaDecl.Schema
