import SchemaDecl.Proofs.Schema.Addresses
import SchemaDecl.Proofs.TypeScript.GrowthLaws
import SchemaDecl.Schema.Prepared

/-! The tree that is handed to the compiler. Preparing a schema changes little
on a node: a reference becomes a type, some keywords go, and an object is
closed. Its children are those it had, so whatever is known of every node of a
schema, folded or not, carries over to the nodes that are rendered. The schema of
additional properties is rendered as well, but the walk does not go there, so it
stays as it was found. -/

namespace SchemaDecl.Schema

open TypeScript

/-- What stands below a node as a schema, the entries of lists among its items included. -/
inductive Under (fields : Fields) : Json → Prop
  | child {x : Json} : Child fields x → Under fields x
  | additional {inner : Fields} :
      Fields.value fields "additionalProperties" = .obj inner → Under fields (.obj inner)
  | nested {entries : List Json} {x : Json} :
      .arr entries ∈ items fields → x ∈ entries → Under fields x

/-- The schema itself and what stands anywhere below it. -/
inductive Within : Json → Json → Prop
  | root {x : Json} : Within x x
  | through {fields : Fields} {x y : Json} :
      Under fields x → Within x y → Within (.obj fields) y

/-- All nodes of a schema are of this kind. -/
def Everywhere (H : Fields → Prop) (schema : Json) : Prop :=
  ∀ fields, Within schema (.obj fields) → H fields

/-! All nodes of a given schema can be checked, level by level. -/

def beneath (fields : Fields) : List Json :=
  (match Fields.value fields "properties" with
    | .obj properties => properties.map Prod.snd
    | .arr entries => entries
    | _ => []) ++
  items fields ++ combinators.flatMap (members fields) ++
  (match Fields.value fields "additionalProperties" with
    | .obj inner => [.obj inner]
    | _ => []) ++
  (items fields).flatMap fun item => match item with
    | .arr entries => entries
    | _ => []

theorem Under.mem_beneath {fields : Fields} {x : Json} (h : Under fields x) :
    x ∈ beneath fields := by
  simp only [beneath, List.mem_append, List.mem_flatMap]
  cases h with
  | child h =>
    cases h with
    | property hp hx =>
      rw [hp]
      exact .inl (.inl (.inl (.inl (List.mem_map_of_mem hx))))
    | entry hp hx =>
      rw [hp]
      exact .inl (.inl (.inl (.inl hx)))
    | item hx => exact .inl (.inl (.inl (.inr hx)))
    | member hkey hx => exact .inl (.inl (.inr ⟨_, hkey, hx⟩))
  | additional hv =>
    rw [hv]
    exact .inl (.inr (List.mem_singleton_self _))
  | nested he hx => exact .inr ⟨_, he, hx⟩

/-- The nodes on so many levels are all of the kind. -/
def checkNodes (holds : Fields → Bool) : Nat → Json → Bool
  | 0, _ => false
  | levels + 1, .obj fields => holds fields && (beneath fields).all (checkNodes holds levels)
  | _ + 1, _ => true

theorem everywhere_of_checkNodes {H : Fields → Prop} [DecidablePred H] {levels : Nat}
    {schema : Json} (h : checkNodes (fun fields => decide (H fields)) levels schema = true) :
    Everywhere H schema := by
  induction levels generalizing schema with
  | zero => cases h
  | succ levels ih =>
    intro inner hin
    cases hin with
    | root =>
      rw [checkNodes, Bool.and_eq_true] at h
      exact of_decide_eq_true h.1
    | through hx hin =>
      rw [checkNodes, Bool.and_eq_true, List.all_eq_true] at h
      exact ih (h.2 _ hx.mem_beneath) inner hin

section
variable {H N : Fields → Prop}

theorem Everywhere.root {fields : Fields} (h : Everywhere H (.obj fields)) : H fields :=
  h fields .root

theorem Everywhere.under {fields : Fields} (h : Everywhere H (.obj fields)) {x : Json}
    (hx : Under fields x) : Everywhere H x := fun inner hinner => h inner (.through hx hinner)

theorem Everywhere.reaches {schema x : Json} (hx : Reaches schema x) (h : Everywhere H schema) :
    Everywhere H x := by
  induction hx with
  | root => exact h
  | through hchild _ ih => exact ih (h.under (.child hchild))

/-! Children of a node that was folded. -/

theorem mem_of_mem_properties {fields : Fields} {p : Key × Json} (h : p ∈ properties fields) :
    ∃ old, Fields.value fields "properties" = .obj old ∧ p ∈ old := by
  unfold properties at h
  split at h
  · rename_i old hold
    exact ⟨old, hold, h⟩
  · cases h

theorem child_of_mem_found {fields found : Fields} (hfold : foldNode fields = .ok found) {x : Json}
    (hx : x ∈ childValues found) : Child fields x := by
  have hother : ∀ key : Key, (Key.str "properties").canon ≠ key.canon →
      Fields.value found key = Fields.value fields key :=
    fun key hkey => Fields.value_congr (value_foldNode_other hfold hkey)
  rw [childValues, List.mem_append, List.mem_append] at hx
  rcases hx with hx | hx | hx
  · obtain ⟨p, hp, rfl⟩ := List.mem_map.1 hx
    obtain ⟨old, hold, hp⟩ := mem_of_mem_properties hp
    exact (properties_foldNode hfold).2 old p hold hp
  · rw [items, hother _ (by decide), ← items] at hx
    exact .item hx
  · obtain ⟨key, hkey, hx⟩ := List.mem_flatMap.1 hx
    have hne : (Key.str "properties").canon ≠ key.canon := by
      clear hx
      revert key
      decide
    rw [members, hother key hne, ← members] at hx
    exact .member hkey hx

/-! Parts of a node are its children and its additional properties. -/

theorem mem_childValues_of_part {fields : Fields} {x : Json} (h : Part fields x) :
    x ∈ childValues fields ∨
      ∃ inner, x = .obj inner ∧ Fields.value fields "additionalProperties" = .obj inner := by
  rw [childValues, List.mem_append, List.mem_append, List.mem_flatMap]
  cases h with
  | property hp => exact .inl (.inl (List.mem_map_of_mem hp))
  | entry hx =>
    refine .inl (.inr (.inl ?_))
    cases hv : Fields.value fields "items" with
    | arr entries => simpa [items, entriesUnder, hv] using hx
    | _ => simp [entriesUnder, hv] at hx
  | item hv => exact .inl (.inr (.inl (by simp [items, hv])))
  | additional hv => exact .inr ⟨_, rfl, hv⟩
  | member hc hx =>
    refine .inl (.inr (.inr ⟨_, ?_, hx⟩))
    simp only [combinatorJoins, List.mem_cons, List.not_mem_nil, or_false] at hc
    rcases hc with rfl | rfl | rfl <;> simp [combinators]

theorem under_of_part {fields : Fields} {x : Json} (h : Part fields x) : Under fields x := by
  cases h with
  | @property p hp =>
    obtain ⟨key, x⟩ := p
    obtain ⟨old, hold, hp⟩ := mem_of_mem_properties hp
    exact .child (.property hold hp)
  | entry hx =>
    cases hv : Fields.value fields "items" with
    | arr entries =>
      refine .child (.item ?_)
      simpa [items, entriesUnder, hv] using hx
    | _ => simp [entriesUnder, hv] at hx
  | item hv => exact .child (.item (by simp [items, hv]))
  | additional hv => exact .additional hv
  | @member c x hc hx =>
    refine .child (.member ?_ hx)
    simp only [combinatorJoins, List.mem_cons, List.not_mem_nil, or_false] at hc
    rcases hc with rfl | rfl | rfl <;> simp [combinators]

/-- What is rendered of a schema as it stands is part of the schema. -/
theorem Everywhere.throughout (hHN : ∀ fields, H fields → N fields) {schema : Json}
    (h : Everywhere H schema) : Throughout N schema := by
  have hdown : ∀ {x y : Json}, Contains x y → Everywhere H x → Everywhere H y := by
    intro x y hin
    induction hin with
    | root => exact fun h => h
    | through hpart _ ih => exact fun h => ih (h.under (under_of_part hpart))
  exact fun fields hin => hHN fields (hdown hin h).root
end

/-! A walked node. -/

theorem childValues_congr {fields fields' : Fields}
    (h : ∀ key ∈ childKeys, Fields.get? fields' key = Fields.get? fields key) (path : Path) :
    children path fields' = children path fields ∧ childValues fields' = childValues fields := by
  rw [children_eq_steps, children_eq_steps, ← steps_map_snd, ← steps_map_snd, steps_congr h]
  exact ⟨rfl, rfl⟩

/-- New children stand under the old keys. -/
theorem key_of_mem_withChildren {fields : Fields} {new : List Json} {p : Key × Json}
    (h : p ∈ properties (withChildren fields new)) : ∃ q ∈ properties fields, q.1 = p.1 := by
  have hkey := List.mem_map_of_mem (f := Prod.fst) h
  rw [properties_withChildren, Fields.withValues_fst] at hkey
  exact List.mem_map.1 hkey

/-! Prepared nodes. -/

namespace Prepared

/-- The keywords that preparing a node sets or drops. -/
def touched : List Key := "tsType" :: "additionalProperties" :: dropped

theorem get?_node_other (typeName : String) (path : Path) (fields : Fields) {l : Key}
    (h : ∀ key ∈ touched, key.canon ≠ l.canon) :
    Fields.get? (node typeName path fields) l = Fields.get? fields l := by
  have hdropped : ∀ key ∈ dropped, key.canon ≠ l.canon := fun key hkey =>
    h key (List.mem_cons_of_mem _ (List.mem_cons_of_mem _ hkey))
  have hclosed : ∀ inner : Fields, Fields.get? (closed inner) l = Fields.get? inner l := by
    intro inner
    unfold closed
    split
    · exact Fields.get?_set_other inner _ (h _ (by simp [touched]))
    · rfl
  rw [node, hclosed, Fields.get?_eraseAll_other _ hdropped, withAlias]
  split
  · exact Fields.get?_set_other fields _ (h _ (by simp [touched]))
  · rfl

theorem get?_node_tsType (typeName : String) (path : Path) (fields : Fields) :
    Fields.get? (node typeName path fields) "tsType" =
      match Reference.ofFields? fields with
      | some reference => some (.str (target typeName path reference))
      | none => Fields.get? fields "tsType" := by
  have hclosed : ∀ inner : Fields,
      Fields.get? (closed inner) "tsType" = Fields.get? inner "tsType" := by
    intro inner
    unfold closed
    split
    · exact Fields.get?_set_other inner _ (by decide)
    · rfl
  rw [node, hclosed, Fields.get?_eraseAll_other _ (by decide), withAlias]
  cases Reference.ofFields? fields with
  | some reference => exact Fields.get?_set_same fields _ rfl
  | none => rfl

theorem value_node_additional {typeName : String} {path : Path} {fields inner : Fields}
    (h : Fields.value (node typeName path fields) "additionalProperties" = .obj inner) :
    Fields.value fields "additionalProperties" = .obj inner := by
  have halias : ∀ given : Fields, Fields.value (withAlias typeName path given)
      "additionalProperties" = Fields.value given "additionalProperties" := by
    intro given
    unfold withAlias
    split
    · exact Fields.value_set_other given _ (by decide)
    · rfl
  have hopen : Fields.value (Fields.eraseAll (withAlias typeName path fields) dropped)
      "additionalProperties" = Fields.value fields "additionalProperties" := by
    rw [Fields.value_eraseAll_other _ (by decide), halias]
  unfold node closed at h
  split at h
  · rw [Fields.value_set_same _ _ rfl] at h
    cases h
  · rwa [hopen] at h

theorem get?_node_dropped (typeName : String) (path : Path) (fields : Fields) {l : Key}
    (h : l ∈ dropped) : Fields.get? (node typeName path fields) l = none := by
  have hne : (Key.str "additionalProperties").canon ≠ l.canon := by
    revert l
    decide
  unfold node closed
  split
  · rw [Fields.get?_set_other _ _ hne, Fields.get?_eraseAll_same _ h]
  · rw [Fields.get?_eraseAll_same _ h]

theorem get?_node_additional (typeName : String) (path : Path) (fields : Fields) :
    Fields.get? (node typeName path fields) "additionalProperties" =
      if Fields.value fields "type" = .str "object" then some (.bool false)
      else Fields.get? fields "additionalProperties" := by
  have halias : ∀ l : Key, (Key.str "tsType").canon ≠ l.canon →
      (∀ key ∈ dropped, key.canon ≠ l.canon) →
      Fields.get? (Fields.eraseAll (withAlias typeName path fields) dropped) l =
        Fields.get? fields l := by
    intro l hl hdropped
    rw [Fields.get?_eraseAll_other _ hdropped]
    unfold withAlias
    split
    · exact Fields.get?_set_other fields _ hl
    · rfl
  have htype := Fields.value_congr (halias "type" (by decide) (by decide))
  unfold node closed
  split
  · rename_i hobject
    rw [if_pos (htype ▸ hobject), Fields.get?_set_same _ _ rfl]
  · rename_i hother
    rw [if_neg (htype ▸ hother), halias _ (by decide) (by decide)]

/-- A node of the tree that was prepared, and the node it has become. -/
structure Becomes (typeName : String) (path : Path) (fields : Fields) (result : Fields) : Prop where
  other : ∀ l : Key, (∀ key ∈ touched, key.canon ≠ l.canon) →
    (∀ key ∈ childKeys, key.canon ≠ l.canon) → Fields.get? result l = Fields.get? fields l
  type : (∃ reference, Reference.ofFields? fields = some reference ∧
    Fields.get? result "tsType" = some (.str (target typeName path reference))) ∨
      Fields.get? result "tsType" = Fields.get? fields "tsType"
  keys : ∃ found, foldNode fields = .ok found ∧
    ∀ p ∈ properties result, ∃ q ∈ properties found, q.1 = p.1

theorem becomes_withChildren {typeName : String} {path : Path} {fields found : Fields}
    (hfold : foldNode fields = .ok found) (new : List Json) :
    Becomes typeName path fields (withChildren (node typeName path found) new) where
  other l htouched hchild := by
    rw [get?_withChildren_other _ _ hchild, get?_node_other _ _ _ htouched,
      value_foldNode_other hfold (hchild _ (by simp [childKeys]))]
  type := by
    have hreference : Reference.ofFields? found = Reference.ofFields? fields := by
      unfold Reference.ofFields?
      rw [Fields.value_congr (value_foldNode_other hfold (by decide)),
        Fields.value_congr (value_foldNode_other hfold (by decide))]
    rw [get?_withChildren_other _ _ (by decide), get?_node_tsType, hreference,
      value_foldNode_other hfold (by decide)]
    cases Reference.ofFields? fields with
    | some reference => exact .inl ⟨reference, rfl, rfl⟩
    | none => exact .inr rfl
  keys := by
    refine ⟨found, hfold, fun p hp => ?_⟩
    obtain ⟨q, hq, hkey⟩ := key_of_mem_withChildren hp
    have hsame : Fields.get? (node typeName path found) "properties" =
        Fields.get? found "properties" := get?_node_other _ _ _ (by decide)
    rw [properties, Fields.value_congr hsame, ← properties] at hq
    exact ⟨q, hq, hkey⟩

/-- Preparing a node does not touch the keywords that hold children. -/
theorem get?_node_child (typeName : String) (path : Path) (fields : Fields) {key : Key}
    (h : key ∈ childKeys) :
    Fields.get? (node typeName path fields) key = Fields.get? fields key := by
  refine get?_node_other _ _ _ fun l hl => ?_
  revert l key
  decide

theorem children_node (typeName : String) (path : Path) (found : Fields) :
    children path (node typeName path found) = children path found ∧
      childValues (node typeName path found) = childValues found :=
  childValues_congr (fun _ hkey => get?_node_child _ _ _ hkey) path

/-- The root of a prepared schema is what the root has become without its description. -/
theorem becomes_of_prepare {typeName : String} {fields : Fields} {prepared : Json}
    (h : prepare typeName (.obj fields) = .ok prepared) : ∃ result, prepared = .obj result ∧
      Becomes typeName [] (Fields.erase fields "description") result := by
  rw [prepare, Inversion.map_eq_ok] at h
  obtain ⟨⟨_, visits⟩, hwalk, rfl⟩ := h
  have hlevels : (withoutDescription (.obj fields)).depth =
      Json.depthFields (Fields.erase fields "description") + 1 := rfl
  unfold prepareWithVisits traverse at hwalk
  rw [hlevels, Nat.add_right_comm] at hwalk
  obtain ⟨found, results, hfold, hresult, _, _⟩ := walk_obj_eq_ok hwalk
  exact ⟨_, hresult, becomes_withChildren hfold _⟩

/-- What is no node is left as it is. -/
theorem prepare_of_not_node (typeName : String) {schema : Json}
    (h : ∀ fields, schema ≠ .obj fields) : prepare typeName schema = .ok schema := by
  cases schema with
  | obj fields => exact absurd rfl (h fields)
  | _ => rfl

/-! The description of the root. -/

theorem withoutDescription_of_not_node {x : Json} (hno : ∀ fields, x ≠ .obj fields) :
    withoutDescription x = x := by
  cases x with
  | obj fields => exact absurd rfl (hno fields)
  | _ => rfl

theorem value_erase_description (fields : Fields) {l : Key}
    (h : (Key.str "description").canon ≠ l.canon) :
    Fields.value (Fields.erase fields "description") l = Fields.value fields l :=
  Fields.value_congr (Fields.get?_erase_other fields h)

theorem items_erase_description (fields : Fields) :
    items (Fields.erase fields "description") = items fields := by
  rw [items, value_erase_description fields (by decide), ← items]

theorem get?_child_erase_description (fields : Fields) {key : Key} (h : key ∈ childKeys) :
    Fields.get? (Fields.erase fields "description") key = Fields.get? fields key := by
  refine Fields.get?_erase_other fields ?_
  revert key
  decide

theorem children_erase_description (path : Path) (fields : Fields) :
    children path (Fields.erase fields "description") = children path fields ∧
      childValues (Fields.erase fields "description") = childValues fields :=
  childValues_congr (fun _ hkey => get?_child_erase_description fields hkey) path

/-- What stands below a node without its description stood below it before. -/
theorem child_erase_description {fields : Fields} {x : Json}
    (h : Child (Fields.erase fields "description") x) : Child fields x := by
  have hproperties := value_erase_description fields (l := "properties") (by decide)
  cases h with
  | property hp hx => exact .property (hproperties ▸ hp) hx
  | entry hp hx => exact .entry (hproperties ▸ hp) hx
  | item hx => exact .item (items_erase_description fields ▸ hx)
  | @member key x hkey hx =>
    have hne : (Key.str "description").canon ≠ key.canon := by
      clear hx
      revert key
      decide
    rw [members, value_erase_description fields hne, ← members] at hx
    exact .member hkey hx

theorem under_erase_description {fields : Fields} {x : Json}
    (h : Under (Fields.erase fields "description") x) : Under fields x := by
  have hadditional := value_erase_description fields (l := "additionalProperties") (by decide)
  cases h with
  | child hchild => exact .child (child_erase_description hchild)
  | additional hv => exact .additional (hadditional ▸ hv)
  | nested he hx => exact .nested (items_erase_description fields ▸ he) hx

section
variable {H N : Fields → Prop} {A : Json → Prop} {typeName : String}

theorem everywhere_withoutDescription
    (herase : ∀ fields, H fields → H (Fields.erase fields "description")) {schema : Json}
    (h : Everywhere H schema) : Everywhere H (withoutDescription schema) := by
  cases schema with
  | obj fields =>
    intro inner hin
    cases hin with
    | root => exact herase fields h.root
    | through hx hin => exact h.under (under_erase_description hx) inner hin
  | _ => exact h

/-- What holds of every node of a schema as it stands, and of every node a good one becomes,
holds throughout the prepared schema. -/
theorem throughout_prepare
    (herase : ∀ fields, H fields → H (Fields.erase fields "description"))
    (hkey : ∀ fields found, H fields → foldNode fields = .ok found →
      ∀ p ∈ properties found, A p.1.toJson)
    (hposition : ∀ i : Nat, A (.int i))
    (hraw : ∀ fields, H fields → N fields)
    (hnode : ∀ path fields result, H fields → (∀ segment ∈ path, A segment) →
      Becomes typeName path fields result → N result)
    {schema prepared : Json} (h : Everywhere H schema)
    (hprepare : prepare typeName schema = .ok prepared) : Throughout N prepared := by
  rw [prepare, Inversion.map_eq_ok] at hprepare
  obtain ⟨⟨_, visits⟩, hwalk, rfl⟩ := hprepare
  have hstart : (∀ segment ∈ ([] : Path), A segment) ∧ Everywhere H (withoutDescription schema) :=
    ⟨by simp, everywhere_withoutDescription herase h⟩
  refine (walk_induction (fun path x => (∀ segment ∈ path, A segment) ∧ Everywhere H x)
    (Throughout N) ?_ ?_ ?_ (Nat.le_refl _) hstart hwalk).2
  · rintro path x hno ⟨_, hx⟩
    exact hx.throughout hraw
  · rintro path fields found ⟨hpath, hfields⟩ hfold child hchild
    have hsame : (visitor typeName).visit path found = node typeName path found := rfl
    rw [hsame, (children_node typeName path found).1] at hchild
    have hmem : child.2 ∈ childValues found := by
      rw [← children_map_snd path]
      exact List.mem_map_of_mem hchild
    have hbelow := child_of_mem_found hfold hmem
    refine ⟨hbelow.depth_le, ?_, hfields.under (.child hbelow)⟩
    simp only [children, List.mem_append, List.mem_map, List.mem_mapIdx, List.mem_flatMap] at hchild
    intro segment hsegment
    rcases hchild with (⟨p, hp, rfl⟩ | ⟨i, hi, rfl⟩) | ⟨key, hkeys, member, hmember, rfl⟩
    · rcases List.mem_append.1 hsegment with hsegment | hsegment
      · exact hpath segment hsegment
      · rw [List.mem_singleton.1 hsegment]
        exact hkey fields found hfields.root hfold p hp
    · rcases List.mem_append.1 hsegment with hsegment | hsegment
      · exact hpath segment hsegment
      · rw [List.mem_singleton.1 hsegment]
        exact hposition i
    · exact hpath segment hsegment
  · rintro path fields found new ⟨hpath, hfields⟩ hfold hkept hnew
    have hsame : (visitor typeName).visit path found = node typeName path found := rfl
    rw [hsame] at hkept ⊢
    intro inner hin
    cases hin with
    | root => exact hnode path fields _ hfields.root hpath (becomes_withChildren hfold new)
    | through hpart hin =>
      rcases mem_childValues_of_part hpart with hx | ⟨additional, rfl, hvalue⟩
      · rw [childValues_withChildren hkept] at hx
        exact hnew _ hx inner hin
      · -- the walk does not go into additional properties
        rw [value_withChildren_other _ _ (by decide)] at hvalue
        have hfound := value_node_additional hvalue
        rw [Fields.value_congr (value_foldNode_other hfold (by decide))] at hfound
        exact (hfields.under (.additional hfound)).throughout hraw inner hin
end

end Prepared

end SchemaDecl.Schema
