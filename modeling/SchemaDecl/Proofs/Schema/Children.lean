import Mathlib.Data.List.Forall2
import SchemaDecl.Proofs.Json.FieldLaws
import SchemaDecl.Schema.Walk

/-! Reading and writing the children of a node. The two obey the laws of a lens:
writing back what was read changes nothing, and what was written is read again,
as long as no child changes its kind. Other keywords than those of the children
are not touched. -/

namespace SchemaDecl.Schema

def childValues (fields : Fields) : List Json :=
  (properties fields).map Prod.snd ++ (items fields ++ combinators.flatMap (members fields))

theorem children_map_snd (path : Path) (fields : Fields) :
    (children path fields).map Prod.snd = childValues fields := by
  have hitems : ((items fields).mapIdx fun i item => (path ++ [Json.int i], item)).map Prod.snd =
      items fields := by
    apply List.ext_getElem <;> simp
  have hmembers : (combinators.flatMap fun key =>
      (members fields key).map fun member => (path, member)).map Prod.snd =
      combinators.flatMap (members fields) := by
    simp [List.map_flatMap, Function.comp_def]
  rw [children, childValues, List.map_append, List.map_append, List.append_assoc, hitems, hmembers,
    List.map_map]
  rfl

/-- A walk leaves the kind of a value alone: nodes stay nodes, and nothing else changes. -/
def Kept (old new : Json) : Prop := old = new ∨ ∃ fs gs, old = .obj fs ∧ new = .obj gs

/-! The members of combinators. -/

def memberStep (state : Fields × List Json) (key : Key) : Fields × List Json :=
  (withMembers state.1 key (state.2.take (members state.1 key).length),
    state.2.drop (members state.1 key).length)

theorem withChildren_eq (fields : Fields) (new : List Json) :
    withChildren fields new =
      (combinators.foldl memberStep
        (withItems (withProperties fields (new.take (properties fields).length))
          ((new.drop (properties fields).length).take (items fields).length),
          (new.drop (properties fields).length).drop (items fields).length)).1 := by
  simp only [withChildren, List.splitAt_eq]
  congr 1

theorem get?_withMembers_other (fields : Fields) {key l : Key} (new : List Json)
    (h : key.canon ≠ l.canon) :
    Fields.get? (withMembers fields key new) l = Fields.get? fields l := by
  unfold withMembers
  split
  · exact Fields.get?_set_other fields _ h
  · rfl

theorem members_withMembers {fields : Fields} {key : Key} {new : List Json}
    (h : new.length = (members fields key).length) :
    members (withMembers fields key new) key = new := by
  cases hv : Fields.value fields key with
  | arr old => simp only [withMembers, hv, members, Fields.value_set_same fields _ rfl]
  | _ =>
    simp only [members, hv, List.length_nil, List.length_eq_zero_iff] at h
    simp only [withMembers, hv, members, h]

theorem withMembers_self (fields : Fields) (key : Key) :
    withMembers fields key (members fields key) = fields := by
  cases hv : Fields.value fields key with
  | arr old =>
    simp only [withMembers, members, hv]
    exact Fields.set_of_value hv (by simp)
  | _ => simp only [withMembers, hv]

theorem members_congr {fields fields' : Fields} {key : Key}
    (h : Fields.get? fields' key = Fields.get? fields key) :
    members fields' key = members fields key := by
  rw [members, members, Fields.value_congr h]

theorem get?_memberSteps_other (keys : List Key) (state : Fields × List Json) {l : Key}
    (h : ∀ key ∈ keys, key.canon ≠ l.canon) :
    Fields.get? (keys.foldl memberStep state).1 l = Fields.get? state.1 l := by
  induction keys generalizing state with
  | nil => rfl
  | cons key keys ih =>
    rw [List.foldl_cons, ih _ fun k hk => h k (List.mem_cons_of_mem _ hk)]
    exact get?_withMembers_other _ _ (h key List.mem_cons_self)

theorem members_memberSteps {keys : List Key} (hkeys : (keys.map Key.canon).Nodup)
    {fields : Fields} {new : List Json}
    (h : new.length = (keys.flatMap (members fields)).length) :
    keys.flatMap (members (keys.foldl memberStep (fields, new)).1) = new := by
  induction keys generalizing fields new with
  | nil => exact (List.length_eq_zero_iff.1 h).symm
  | cons key keys ih =>
    obtain ⟨hkey, hkeys⟩ := List.nodup_cons.1 hkeys
    have hne : ∀ k ∈ keys, k.canon ≠ key.canon := fun k hk e =>
      hkey (List.mem_map.2 ⟨k, hk, e⟩)
    rw [List.flatMap_cons, List.length_append] at h
    let now := new.take (members fields key).length
    let later := new.drop (members fields key).length
    have hstep : memberStep (fields, new) key = (withMembers fields key now, later) := rfl
    have hnow : members (withMembers fields key now) key = now :=
      members_withMembers (by simp only [now, List.length_take]; omega)
    have hothers : keys.flatMap (members (withMembers fields key now)) =
        keys.flatMap (members fields) :=
      List.flatMap_congr fun k hk =>
        members_congr (get?_withMembers_other fields now fun e => hne k hk e.symm)
    rw [List.foldl_cons, hstep, List.flatMap_cons,
      members_congr (get?_memberSteps_other keys _ hne), hnow,
      ih hkeys (by rw [hothers]; simp only [later, List.length_drop]; omega)]
    exact List.take_append_drop _ _

theorem get?_withMembers_congr {fields fields' : Fields} {key : Key} (new : List Json)
    (h : Fields.get? fields' key = Fields.get? fields key) :
    Fields.get? (withMembers fields' key new) key =
      Fields.get? (withMembers fields key new) key := by
  unfold withMembers
  rw [Fields.value_congr h]
  split
  · rw [Fields.get?_set_same _ _ rfl, Fields.get?_set_same _ _ rfl]
  · exact h

/-- Each combinator is written once, with as many members as it had. -/
theorem get?_memberSteps {keys : List Key} (hkeys : (keys.map Key.canon).Nodup)
    {fields : Fields} {new : List Json}
    (h : new.length = (keys.flatMap (members fields)).length) {key : Key} (hkey : key ∈ keys) :
    ∃ now : List Json, now.length = (members fields key).length ∧
      Fields.get? (keys.foldl memberStep (fields, new)).1 key =
        Fields.get? (withMembers fields key now) key := by
  induction keys generalizing fields new with
  | nil => cases hkey
  | cons first keys ih =>
    obtain ⟨hfirst, hkeys⟩ := List.nodup_cons.1 hkeys
    have hne : ∀ k ∈ keys, k.canon ≠ first.canon := fun k hk e =>
      hfirst (List.mem_map.2 ⟨k, hk, e⟩)
    rw [List.flatMap_cons, List.length_append] at h
    let now := new.take (members fields first).length
    have hothers : ∀ k ∈ keys,
        Fields.get? (withMembers fields first now) k = Fields.get? fields k :=
      fun k hk => get?_withMembers_other fields now fun e => hne k hk e.symm
    have hstep : memberStep (fields, new) first =
        (withMembers fields first now, new.drop (members fields first).length) := rfl
    rw [List.foldl_cons, hstep]
    rcases List.mem_cons.1 hkey with rfl | hkey
    · refine ⟨now, ?_, get?_memberSteps_other keys _ hne⟩
      simp only [now, List.length_take]
      omega
    · have hmembers : ∀ k ∈ keys, members (withMembers fields first now) k = members fields k :=
        fun k hk => members_congr (hothers k hk)
      have hlength : (new.drop (members fields first).length).length =
          (keys.flatMap (members (withMembers fields first now))).length := by
        rw [List.flatMap_congr hmembers, List.length_drop]
        omega
      obtain ⟨later, hlater, heq⟩ := ih hkeys hlength hkey
      refine ⟨later, by rw [hlater, hmembers key hkey], ?_⟩
      rw [heq, get?_withMembers_congr later (hothers key hkey)]

theorem memberSteps_self {keys : List Key} (fields : Fields) :
    (keys.foldl memberStep (fields, keys.flatMap (members fields))).1 = fields := by
  induction keys with
  | nil => rfl
  | cons key keys ih =>
    rw [List.foldl_cons, List.flatMap_cons]
    have hstep : memberStep (fields, members fields key ++ keys.flatMap (members fields)) key =
        (fields, keys.flatMap (members fields)) := by
      simp only [memberStep, List.take_left, List.drop_left, withMembers_self]
    rw [hstep, ih]

/-! Properties and items. -/

theorem get?_withProperties_other (fields : Fields) {l : Key} (new : List Json)
    (h : (Key.str "properties").canon ≠ l.canon) :
    Fields.get? (withProperties fields new) l = Fields.get? fields l := by
  unfold withProperties
  split
  · exact Fields.get?_set_other fields _ h
  · rfl

theorem get?_withItems_other (fields : Fields) {l : Key} (new : List Json)
    (h : (Key.str "items").canon ≠ l.canon) :
    Fields.get? (withItems fields new) l = Fields.get? fields l := by
  unfold withItems
  split
  · rfl
  · exact Fields.get?_set_other fields _ h
  · exact Fields.get?_set_other fields _ h
  · rfl

theorem value_withProperties {fields ps : Fields} (new : List Json)
    (h : Fields.value fields "properties" = .obj ps) :
    Fields.value (withProperties fields new) "properties" = .obj (Fields.withValues ps new) := by
  simp only [withProperties, h, Fields.value_set_same fields _ rfl]

theorem withProperties_of_not_obj {fields : Fields} (new : List Json)
    (h : ∀ ps, Fields.value fields "properties" ≠ .obj ps) :
    withProperties fields new = fields := by
  unfold withProperties
  split
  · rename_i ps hps
    exact absurd hps (h ps)
  · rfl

theorem properties_withProperties (fields : Fields) (new : List Json) :
    properties (withProperties fields new) = Fields.withValues (properties fields) new := by
  cases hv : Fields.value fields "properties" with
  | obj ps => simp only [properties, hv, value_withProperties new hv]
  | _ =>
    rw [withProperties_of_not_obj new (by simp [hv])]
    simp only [properties, hv]
    cases new <;> rfl

theorem withProperties_self (fields : Fields) :
    withProperties fields ((properties fields).map Prod.snd) = fields := by
  cases hv : Fields.value fields "properties" with
  | obj ps =>
    simp only [withProperties, properties, hv, Fields.withValues_self]
    exact Fields.set_of_value hv (by simp)
  | _ => exact withProperties_of_not_obj _ (by simp [hv])

/-- A value under `items` that is one item and no list of them. -/
def IsSingle (v : Json) : Prop := v ≠ .null ∧ ∀ xs, v ≠ .arr xs

theorem items_of_single {fields : Fields} (h : IsSingle (Fields.value fields "items")) :
    items fields = [Fields.value fields "items"] := by
  cases hv : Fields.value fields "items" with
  | null => exact absurd hv h.1
  | arr xs => exact absurd hv (h.2 xs)
  | _ => simp only [items, hv]

theorem withItems_of_single {fields : Fields} (h : IsSingle (Fields.value fields "items"))
    (new : Json) : withItems fields [new] = Fields.set fields "items" new := by
  cases hv : Fields.value fields "items" with
  | null => exact absurd hv h.1
  | arr xs => exact absurd hv (h.2 xs)
  | _ => simp only [withItems, hv]

theorem single_of_kept {old new : Json} (h : IsSingle old) (hk : Kept old new) : IsSingle new := by
  rcases hk with rfl | ⟨fs, gs, rfl, rfl⟩
  · exact h
  · exact ⟨by simp, by simp⟩

theorem value_withItems_of_single {fields : Fields} {new : List Json}
    (hs : IsSingle (Fields.value fields "items")) (h : List.Forall₂ Kept (items fields) new) :
    ∃ y, new = [y] ∧ IsSingle y ∧ Fields.value (withItems fields new) "items" = y := by
  rw [items_of_single hs] at h
  cases h with
  | cons hy hnil =>
    rename_i y _
    cases hnil
    refine ⟨y, rfl, single_of_kept hs hy, ?_⟩
    rw [withItems_of_single hs, Fields.value_set_same fields y rfl]

theorem items_withItems {fields : Fields} {new : List Json}
    (h : List.Forall₂ Kept (items fields) new) : items (withItems fields new) = new := by
  by_cases hs : IsSingle (Fields.value fields "items")
  · obtain ⟨y, rfl, hy, hvalue⟩ := value_withItems_of_single hs h
    rw [items_of_single (by rw [hvalue]; exact hy), hvalue]
  · cases hv : Fields.value fields "items" with
    | null =>
      simp only [items, hv, List.forall₂_nil_left_iff] at h
      simp only [withItems, hv, items, h]
    | arr old => simp only [withItems, hv, items, Fields.value_set_same fields _ rfl]
    | _ => exact absurd ⟨by simp, by simp⟩ (hv ▸ hs)

theorem withItems_self (fields : Fields) : withItems fields (items fields) = fields := by
  by_cases hs : IsSingle (Fields.value fields "items")
  · rw [items_of_single hs, withItems_of_single hs]
    exact Fields.set_of_value rfl hs.1
  · cases hv : Fields.value fields "items" with
    | null => simp only [withItems, hv]
    | arr old =>
      simp only [withItems, items, hv]
      exact Fields.set_of_value hv (by simp)
    | _ => exact absurd ⟨by simp, by simp⟩ (hv ▸ hs)

/-! All children. -/

theorem combinators_nodup : (combinators.map Key.canon).Nodup := by decide

/-- Writing back the children that were read changes nothing. -/
theorem withChildren_childValues (fields : Fields) :
    withChildren fields (childValues fields) = fields := by
  have hlen : ((properties fields).map Prod.snd).length = (properties fields).length :=
    List.length_map _
  rw [withChildren_eq, childValues, ← hlen, List.take_left, List.drop_left, List.take_left,
    List.drop_left, withProperties_self, withItems_self, memberSteps_self]

/-- The keywords that hold children. -/
def childKeys : List Key := "properties" :: "items" :: combinators

theorem get?_withChildren_other (fields : Fields) (new : List Json) {l : Key}
    (h : ∀ key ∈ childKeys, key.canon ≠ l.canon) :
    Fields.get? (withChildren fields new) l = Fields.get? fields l := by
  have hcombinators : ∀ key ∈ combinators, key.canon ≠ l.canon := fun key hkey =>
    h key (List.mem_cons_of_mem _ (List.mem_cons_of_mem _ hkey))
  rw [withChildren_eq, get?_memberSteps_other _ _ hcombinators,
    get?_withItems_other _ _ (h _ (by simp [childKeys])),
    get?_withProperties_other _ _ (h _ (by simp [childKeys]))]

theorem value_withChildren_other (fields : Fields) (new : List Json) {l : Key}
    (h : ∀ key ∈ childKeys, key.canon ≠ l.canon) :
    Fields.value (withChildren fields new) l = Fields.value fields l :=
  Fields.value_congr (get?_withChildren_other fields new h)

theorem value_withChildren_properties (fields : Fields) (new : List Json) :
    Fields.value (withChildren fields new) "properties" =
      Fields.value (withProperties fields (new.take (properties fields).length)) "properties" := by
  rw [withChildren_eq]
  exact Fields.value_congr
    ((get?_memberSteps_other _ _ (by decide)).trans (get?_withItems_other _ _ (by decide)))

theorem properties_withChildren (fields : Fields) (new : List Json) :
    properties (withChildren fields new) =
      Fields.withValues (properties fields) (new.take (properties fields).length) := by
  rw [properties, value_withChildren_properties, ← properties, properties_withProperties]

/-- An object of properties with new children was one before. -/
theorem exists_properties_of_withChildren {fields ps : Fields} {new : List Json}
    (h : Fields.value (withChildren fields new) "properties" = .obj ps) :
    ∃ old, Fields.value fields "properties" = .obj old ∧
      ps = Fields.withValues old (new.take (properties fields).length) := by
  rw [value_withChildren_properties] at h
  cases hold : Fields.value fields "properties" with
  | obj old =>
    rw [value_withProperties _ hold] at h
    exact ⟨old, rfl, (Json.obj.inj h).symm⟩
  | _ =>
    rw [withProperties_of_not_obj _ (by simp [hold]), hold] at h
    cases h

theorem value_withChildren_items (fields : Fields) (new : List Json) :
    Fields.value (withChildren fields new) "items" =
      Fields.value (withItems (withProperties fields (new.take (properties fields).length))
        ((new.drop (properties fields).length).take (items fields).length)) "items" := by
  rw [withChildren_eq]
  exact Fields.value_congr (get?_memberSteps_other _ _ (by decide))

/-- Neither properties nor items stand under a combinator. -/
theorem get?_beforeMembers (fields : Fields) (forProperties forItems : List Json) {key : Key}
    (h : key ∈ combinators) :
    Fields.get? (withItems (withProperties fields forProperties) forItems) key =
      Fields.get? fields key := by
  have hne : (Key.str "items").canon ≠ key.canon ∧ (Key.str "properties").canon ≠ key.canon := by
    revert key
    decide
  rw [get?_withItems_other _ _ hne.1, get?_withProperties_other _ _ hne.2]

section
variable {fields : Fields} {new : List Json} (h : List.Forall₂ Kept (childValues fields) new)
include h

theorem kept_items : List.Forall₂ Kept
    (items (withProperties fields (new.take (properties fields).length)))
    ((new.drop (properties fields).length).take (items fields).length) := by
  have hitems : items (withProperties fields (new.take (properties fields).length)) =
      items fields := by
    rw [items, items, Fields.value_congr (get?_withProperties_other fields _ (by decide))]
  have hrest := List.forall₂_drop ((properties fields).map Prod.snd).length h
  rw [childValues, List.drop_left] at hrest
  have hnow := List.forall₂_take (items fields).length hrest
  rw [List.take_left, List.length_map] at hnow
  rw [hitems]
  exact hnow

theorem items_withChildren : items (withChildren fields new) =
    (new.drop (properties fields).length).take (items fields).length := by
  rw [items, value_withChildren_items, ← items, items_withItems (kept_items h)]

theorem length_items_withChildren :
    (items (withChildren fields new)).length = (items fields).length := by
  have hlength := h.length_eq
  simp only [childValues, List.length_append, List.length_map] at hlength
  rw [items_withChildren h, List.length_take, List.length_drop]
  omega

/-- What was written is read again. -/
theorem childValues_withChildren : childValues (withChildren fields new) = new := by
  have hlength := h.length_eq
  simp only [childValues, List.length_append, List.length_map] at hlength
  have hmembers : ∀ key ∈ combinators, members
      (withItems (withProperties fields (new.take (properties fields).length))
        ((new.drop (properties fields).length).take (items fields).length)) key =
      members fields key := fun key hkey => members_congr (get?_beforeMembers _ _ _ hkey)
  have hcombinators := List.flatMap_congr hmembers
  rw [childValues, properties_withChildren, items_withChildren h,
    Fields.withValues_snd (by rw [List.length_take]; omega), withChildren_eq,
    members_memberSteps combinators_nodup
      (by rw [hcombinators, List.length_drop, List.length_drop]; omega),
    List.take_append_drop, List.take_append_drop]

/-- A combinator gets as many new members as it had. -/
theorem get?_withChildren_combinator {key : Key} (hkey : key ∈ combinators) :
    ∃ now : List Json, now.length = (members fields key).length ∧
      Fields.get? (withChildren fields new) key = Fields.get? (withMembers fields key now) key := by
  let before := withItems (withProperties fields (new.take (properties fields).length))
    ((new.drop (properties fields).length).take (items fields).length)
  have hbefore : ∀ k ∈ combinators, Fields.get? before k = Fields.get? fields k :=
    fun k hk => get?_beforeMembers fields _ _ hk
  have hrest : ((new.drop (properties fields).length).drop (items fields).length).length =
      (combinators.flatMap (members before)).length := by
    have hlength := h.length_eq
    simp only [childValues, List.length_append, List.length_map] at hlength
    have hsame : combinators.flatMap (members before) = combinators.flatMap (members fields) :=
      List.flatMap_congr fun k hk => members_congr (hbefore k hk)
    rw [hsame, List.length_drop, List.length_drop]
    omega
  obtain ⟨now, hnow, heq⟩ := get?_memberSteps combinators_nodup hrest hkey
  refine ⟨now, by rw [hnow, members_congr (hbefore key hkey)], ?_⟩
  rw [withChildren_eq, heq, get?_withMembers_congr now (hbefore key hkey)]

theorem length_members_withChildren {key : Key} (hkey : key ∈ combinators) :
    (members (withChildren fields new) key).length = (members fields key).length := by
  obtain ⟨now, hnow, heq⟩ := get?_withChildren_combinator h hkey
  rw [members_congr heq, members_withMembers hnow, hnow]
end

end SchemaDecl.Schema
