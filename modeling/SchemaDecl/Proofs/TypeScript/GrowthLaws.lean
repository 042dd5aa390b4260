import SchemaDecl.Proofs.Json.FieldLaws
import SchemaDecl.Proofs.TypeScript.Runs
import SchemaDecl.TypeScript.Growth
import SchemaDecl.TypeScript.IndexedAccess

/-! The parts of a schema that are rendered with it, and growth where there is
nothing to grow: if no node of a schema has a list for its type, rendering
leaves the schema as it is. -/

namespace SchemaDecl.TypeScript

/-- What is rendered directly below a node. -/
inductive Part (fields : Fields) : Json → Prop
  | property {p : Key × Json} : p ∈ propertiesOf fields → Part fields p.2
  | entry {x : Json} : x ∈ entriesUnder fields "items" → Part fields x
  | item {inner : Fields} : Fields.value fields "items" = .obj inner → Part fields (.obj inner)
  | additional {inner : Fields} :
      Fields.value fields "additionalProperties" = .obj inner → Part fields (.obj inner)
  | member {c : Key × String} {x : Json} :
      c ∈ combinatorJoins → x ∈ entriesUnder fields c.1 → Part fields x

def objectUnder (fields : Fields) (key : Key) : List Json :=
  match Fields.value fields key with
  | .obj inner => [.obj inner]
  | _ => []

/-- The parts of a node in a list. -/
def partsOf (fields : Fields) : List Json :=
  (propertiesOf fields).map Prod.snd ++ entriesUnder fields "items" ++
    objectUnder fields "items" ++ objectUnder fields "additionalProperties" ++
    combinatorJoins.flatMap fun c => entriesUnder fields c.1

theorem mem_objectUnder {fields inner : Fields} {key : Key}
    (h : Fields.value fields key = .obj inner) : .obj inner ∈ objectUnder fields key := by
  rw [objectUnder, h]
  exact List.mem_singleton_self _

theorem mem_partsOf {fields : Fields} {x : Json} (h : Part fields x) : x ∈ partsOf fields := by
  simp only [partsOf, List.mem_append, List.mem_flatMap]
  cases h with
  | property hp => exact .inl (.inl (.inl (.inl (List.mem_map_of_mem hp))))
  | entry hx => exact .inl (.inl (.inl (.inr hx)))
  | item hvalue => exact .inl (.inl (.inr (mem_objectUnder hvalue)))
  | additional hvalue => exact .inl (.inr (mem_objectUnder hvalue))
  | member hc hx => exact .inr ⟨_, hc, hx⟩

/-- The schema itself and what is rendered anywhere below it. -/
inductive Contains : Json → Json → Prop
  | root {schema : Json} : Contains schema schema
  | through {fields : Fields} {x schema : Json} :
      Part fields x → Contains x schema → Contains (.obj fields) schema

/-- Every rendered node of the schema is of this kind. -/
def Throughout (P : Fields → Prop) (schema : Json) : Prop :=
  ∀ fields, Contains schema (.obj fields) → P fields

section
variable {P : Fields → Prop}

theorem Throughout.root {fields : Fields} (h : Throughout P (.obj fields)) : P fields :=
  h fields .root

theorem Throughout.part {fields : Fields} (h : Throughout P (.obj fields)) {x : Json}
    (hx : Part fields x) : Throughout P x := fun inner hinner => h inner (.through hx hinner)

theorem Throughout.imp {Q : Fields → Prop} (hPQ : ∀ fields, P fields → Q fields) {schema : Json}
    (h : Throughout P schema) : Throughout Q schema := fun fields hin => hPQ fields (h fields hin)

theorem throughout_of_parts {fields : Fields} (hroot : P fields)
    (hparts : ∀ x ∈ partsOf fields, Throughout P x) : Throughout P (.obj fields) := by
  intro inner hin
  cases hin with
  | root => exact hroot
  | through hpart hin => exact hparts _ (mem_partsOf hpart) inner hin
end

/-! Steps that change nothing. -/

theorem mapObject_of_fixed {fields : Fields} {key : Key} {f : Fields → Fields}
    (h : ∀ inner, Fields.value fields key = .obj inner → f inner = inner) :
    mapObject fields key f = fields := by
  unfold mapObject
  split
  · rename_i inner hinner
    rw [h inner hinner]
    exact Fields.set_of_value hinner (by simp)
  · rfl

theorem mapList_of_fixed {fields : Fields} {key : Key} {f : Json → Json}
    (h : ∀ x ∈ entriesUnder fields key, f x = x) : mapList fields key f = fields := by
  unfold mapList
  unfold entriesUnder at h
  split
  · rename_i entries hentries
    rw [hentries] at h
    have hmap : entries.map f = entries := by
      conv => rhs; rw [← List.map_id entries]
      exact List.map_congr_left h
    rw [hmap]
    exact Fields.set_of_value hentries (by simp)
  · rfl

theorem foldl_of_fixed {α β : Type} {f : α → β → α} {a : α} {xs : List β}
    (h : ∀ x ∈ xs, f a x = a) : xs.foldl f a = a := by
  induction xs with
  | nil => rfl
  | cons x xs ih =>
    rw [List.foldl_cons, h x List.mem_cons_self]
    exact ih fun y hy => h y (List.mem_cons_of_mem _ hy)

/-! Schemas without lists for types. -/

/-- The type of a node, if an author gave one, is no list. -/
def NoListType (fields : Fields) : Prop :=
  ∀ entries, Fields.value fields "tsType" ≠ .arr entries

/-- A node has no type of its own unless it stands for a look-up into the root. -/
def Derived (fields : Fields) : Prop :=
  Fields.get? fields "tsType" = none ∨ ∃ root keys,
    Name.isIdentifier root.toList = true ∧
      Fields.get? fields "tsType" = some (.str (IndexedAccess.render ⟨root, keys⟩))

theorem Derived.noListType {fields : Fields} (h : Derived fields) : NoListType fields := by
  intro entries hentries
  rcases h with hnone | ⟨root, keys, _, hsome⟩
  · rw [Fields.value, hnone] at hentries
    cases hentries
  · rw [Fields.value, hsome] at hentries
    cases hentries

theorem takeUndefined_of_noListType {node : Fields} (h : NoListType node) :
    takeUndefined node = node := by
  unfold takeUndefined
  split
  · rename_i entries hentries
    exact absurd hentries (h entries)
  · rfl

section
variable {fields : Fields} {grow : Json → Json} (hgrow : ∀ x, Part fields x → grow x = x)
include hgrow

theorem growArray_of_fixed : growArray grow fields = fields := by
  have hlist : mapList fields "items" grow = fields :=
    mapList_of_fixed fun x hx => hgrow x (.entry hx)
  rw [growArray, hlist]
  refine mapObject_of_fixed fun inner hinner => ?_
  rw [growFields, hgrow _ (.item hinner), fieldsOf]

theorem growObject_of_fixed (h : Throughout NoListType (.obj fields)) :
    growObject grow fields = fields := by
  have hproperties : (mapObject fields "properties" fun properties =>
      properties.map fun p => (p.1, grow p.2)) = fields := by
    refine mapObject_of_fixed fun properties hvalue => ?_
    conv => rhs; rw [← List.map_id properties]
    refine List.map_congr_left fun p hp => ?_
    have hmem : p ∈ propertiesOf fields := by rw [propertiesOf, hvalue]; exact hp
    rw [hgrow p.2 (.property hmem)]
    rfl
  rw [growObject, hproperties]
  refine mapObject_of_fixed fun inner hinner => ?_
  have hfields : growFields grow inner = inner := by
    rw [growFields, hgrow _ (.additional hinner), fieldsOf]
  rw [hfields]
  exact takeUndefined_of_noListType (h.part (.additional hinner)).root

theorem growAs_of_fixed (h : Throughout NoListType (.obj fields)) (name : Json) :
    growAs grow fields name = fields := by
  unfold growAs
  split
  · exact growObject_of_fixed hgrow h
  · exact growArray_of_fixed hgrow
  · rfl

theorem growNode_of_fixed (h : Throughout NoListType (.obj fields)) :
    growNode grow (.obj fields) = .obj fields := by
  have hnames : ∀ names : List Json, names.foldl (growAs grow) fields = fields :=
    fun names => foldl_of_fixed fun name _ => growAs_of_fixed hgrow h name
  have hjoins : combinatorJoins.foldl (fun fields c => mapList fields c.1 grow) fields =
      fields :=
    foldl_of_fixed fun c hc => mapList_of_fixed fun x hx => hgrow x (.member hc hx)
  simp only [growNode, hnames, hjoins]
  split
  · rfl
  · rfl
end

/-- Without lists for types nothing grows, by induction on the levels. -/
theorem grown_of_noListType (levels : Nat) {schema : Json} (h : Throughout NoListType schema) :
    grown levels schema = schema := by
  induction levels generalizing schema with
  | zero => rfl
  | succ levels ih =>
    cases schema with
    | obj fields => exact growNode_of_fixed (fun x hx => ih (h.part hx)) h
    | _ => rfl

theorem leftAfter_of_noListType (options : Options) {schema : Json}
    (h : Throughout NoListType schema) : leftAfter options schema = schema := by
  unfold leftAfter
  split
  · exact grown_of_noListType schema.depth h
  · rfl

/-- Then a node stays the same for all the names in its `type`. -/
theorem afterName_of_noListType (options : Options) {fields : Fields}
    (h : Throughout NoListType (.obj fields)) (name : Json) :
    afterName options fields name = fields := by
  unfold afterName
  split
  · exact growAs_of_fixed (fun x hx => leftAfter_of_noListType options (h.part hx)) h name
  · rfl

end SchemaDecl.TypeScript
