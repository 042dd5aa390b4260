import SchemaDecl.Proofs.Schema.Idempotence
import SchemaDecl.Proofs.Schema.PreparedTree
import SchemaDecl.Proofs.TypeScript.Judgements

/-! Names of types that the compiler knows. Normalizing replaces an alias from
the built-in table by a name for which there is a type, and preparing leaves the
names alone, so every node that both walks have come to has known names only.
Neither of them goes into the schema of additional properties. -/

namespace SchemaDecl.Schema

open TypeScript

/-- Each name in the `type` of a node has a type of its own. -/
def Canonical (fields : Fields) : Prop := ∀ name ∈ typeNames fields, isKnown name = true

/-- Whether a name is an alias from the built-in table or has a type of its own, in any case. -/
def isAliased : Json → Bool
  | .str s => Fields.contains TypeNames.builtin (Text.lower s) || isKnown (.str (Text.lower s))
  | _ => false

/-- Each name in the `type` of a node is an alias or has a type of its own, but for its case. -/
def Aliased (fields : Fields) : Prop := ∀ name ∈ typeNames fields, isAliased name = true

instance : DecidablePred Aliased := fun fields =>
  inferInstanceAs (Decidable (∀ name ∈ typeNames fields, isAliased name = true))

/-- What the walks come to from the root on has canonical names. -/
def Named (schema : Json) : Prop := ∀ fields, Reaches schema (.obj fields) → Canonical fields

/-! One node. -/

def namesIn : Json → List Json
  | .null => []
  | .arr names => names
  | name => [name]

theorem namesIn_of_isKnown {name : Json} (h : isKnown name = true) : namesIn name = [name] := by
  cases name with
  | str s => rfl
  | _ => cases h

theorem mem_typeNames {fields : Fields} {name : Json}
    (h : name ∈ namesIn (Fields.value fields "type")) : name ∈ typeNames fields := by
  unfold typeNames
  cases hv : Fields.value fields "type" with
  | null =>
    rw [hv] at h
    cases h
  | _ =>
    rw [hv] at h
    exact h

theorem isKnown_or_mem_namesIn {fields : Fields} {name : Json} (h : name ∈ typeNames fields) :
    isKnown name = true ∨ name ∈ namesIn (Fields.value fields "type") := by
  unfold typeNames at h
  cases hv : Fields.value fields "type" with
  | null =>
    simp only [hv] at h
    split at h <;> rw [List.mem_singleton.1 h] <;> exact .inl rfl
  | _ =>
    rw [hv] at h
    exact .inr h

theorem canonical_iff {fields : Fields} :
    Canonical fields ↔ ∀ name ∈ namesIn (Fields.value fields "type"), isKnown name = true := by
  constructor
  · exact fun h name hname => h name (mem_typeNames hname)
  · exact fun h name hname => (isKnown_or_mem_namesIn hname).elim id (h name)

theorem Canonical.congr {fields fields' : Fields} (h : Canonical fields)
    (htype : Fields.value fields' "type" = Fields.value fields "type") : Canonical fields' := by
  rw [canonical_iff] at h ⊢
  rwa [htype]

theorem isKnown_builtin : ∀ entry ∈ TypeNames.builtin, isKnown entry.2 = true := by decide

/-- The built-in table leads from an alias to a name that is known. -/
theorem isKnown_canonical {name : Json} (h : isAliased name = true) :
    isKnown (TypeNames.canonical TypeNames.builtin name) = true := by
  cases name with
  | str s =>
    rw [TypeNames.canonical]
    cases hget : Fields.get? TypeNames.builtin (Text.lower s) with
    | some v =>
      obtain ⟨k, hk⟩ := Fields.mem_of_get? hget
      exact isKnown_builtin _ hk
    | none =>
      rw [isAliased, Fields.contains, hget] at h
      exact h
  | _ => cases h

theorem canonical_of_aliased {fields : Fields} (h : Aliased fields) :
    ∀ name ∈ namesIn (if (Fields.value fields "type").truthy
      then Normal.canonicalType TypeNames.builtin (Fields.value fields "type")
      else Fields.value fields "type"), isKnown name = true := by
  have hnames : ∀ name ∈ namesIn (Fields.value fields "type"), isAliased name = true :=
    fun name hname => h name (mem_typeNames hname)
  cases hv : Fields.value fields "type" with
  | null => simp [Json.truthy, namesIn]
  | arr names =>
    rw [hv] at hnames
    intro name hname
    split at hname
    · obtain ⟨old, hold, rfl⟩ := List.mem_map.1 hname
      exact isKnown_canonical (hnames old hold)
    · rename_i hempty
      have hnil : names = [] := by simpa [Json.truthy] using hempty
      rw [hnil] at hname
      cases hname
  | str s =>
    rw [hv] at hnames
    have hs : isAliased (.str s) = true := hnames _ (List.mem_singleton_self _)
    intro name hname
    split at hname
    · have hknown := isKnown_canonical hs
      have hone : namesIn (Normal.canonicalType TypeNames.builtin (.str s)) =
          [TypeNames.canonical TypeNames.builtin (.str s)] := namesIn_of_isKnown hknown
      rw [hone] at hname
      rw [List.mem_singleton.1 hname]
      exact hknown
    · -- the empty name is neither an alias nor known
      rename_i hempty
      have hnil : s = "" := by simpa [Json.truthy] using hempty
      rw [hnil] at hs
      exact absurd hs (by decide +kernel)
  | _ =>
    rw [hv] at hnames
    cases hnames _ (List.mem_singleton_self _)

/-! Walked trees. -/

theorem Named.child {fields : Fields} (h : Named (.obj fields)) {x : Json}
    (hx : Child fields x) : Named x := fun below hbelow => h below (.through hx hbelow)

theorem named_of_not_node {schema : Json} (h : ∀ fields, schema ≠ .obj fields) : Named schema := by
  intro fields hin
  cases hin with
  | root => exact absurd rfl (h fields)
  | through _ _ => exact absurd rfl (h _)

theorem mem_childValues_of_child {fields : Fields} {x : Json}
    (hlist : ∀ entries, Fields.value fields "properties" ≠ .arr entries) (h : Child fields x) :
    x ∈ childValues fields := by
  rw [childValues, List.mem_append, List.mem_append, List.mem_flatMap]
  cases h with
  | @property ps key x hp hx =>
    have hmem : (key, x) ∈ properties fields := by
      rw [properties, hp]
      exact hx
    exact .inl (List.mem_map_of_mem hmem)
  | entry hp _ => exact absurd hp (hlist _)
  | item hx => exact .inr (.inl hx)
  | member hkey hx => exact .inr (.inr ⟨_, hkey, hx⟩)

/-- A canonical node over new children that are named. -/
theorem named_withChildren {fields : Fields} {new : List Json} (hc : Canonical fields)
    (hlist : ∀ entries, Fields.value fields "properties" ≠ .arr entries)
    (hkept : List.Forall₂ Kept (childValues fields) new) (hnew : ∀ x ∈ new, Named x) :
    Named (.obj (withChildren fields new)) := by
  intro inner hin
  cases hin with
  | root => exact hc.congr (value_withChildren_other fields new (by decide))
  | through hchild hin =>
    have hmem := mem_childValues_of_child (Normal.properties_withChildren_not_arr hlist) hchild
    rw [childValues_withChildren hkept] at hmem
    exact hnew _ hmem inner hin

theorem Under.depth_le {fields : Fields} {x : Json} (h : Under fields x) :
    x.depth ≤ Json.depthFields fields := by
  cases h with
  | child hchild => exact hchild.depth_le
  | additional hv =>
    rw [← hv]
    exact Fields.depth_value_le fields _
  | nested he hx =>
    have hlist := depth_of_mem_items he
    have hentry := Json.depth_le_depthItems hx
    rw [Json.depth] at hlist
    omega

/-- Normalizing with the built-in table leaves no alias where it comes to. -/
theorem named_of_normalize {schema result : Json} (h : Everywhere Aliased schema)
    (hn : Normal.normalize TypeNames.builtin schema = .ok result) : Named result := by
  obtain ⟨visits, hwalk⟩ := Normal.normalize_eq_ok.1 hn
  refine (walk_induction (fun _ => Everywhere Aliased) Named ?_ ?_ ?_ (Nat.le_refl _) h hwalk).2
  · exact fun path x hno _ => named_of_not_node hno
  · intro path fields found hfields hfold child hchild
    rw [Normal.visit_eq] at hchild
    have hmem : child.2 ∈ childValues (Normal.node TypeNames.builtin found) := by
      rw [← children_map_snd path]
      exact List.mem_map_of_mem hchild
    have hunder : Under fields child.2 := by
      rcases Normal.child_or_nested_of_mem_node hfold hmem with hx | ⟨xs, rest, hitems, hx⟩
      · exact .child hx
      · have hlist : Json.arr xs ∈ items fields := by simp [items, hitems]
        exact .nested hlist hx
    exact ⟨hunder.depth_le, hfields.under hunder⟩
  · intro path fields found new hfields hfold hkept hnew
    rw [Normal.visit_eq] at hkept ⊢
    refine named_withChildren ?_ ?_ hkept hnew
    · rw [canonical_iff, Normal.value_node_type, Normal.value_found_other hfold (by decide)]
      exact canonical_of_aliased hfields.root
    · exact Normal.properties_node_not_arr (properties_foldNode hfold).1

theorem named_withoutDescription {schema : Json} (h : Named schema) :
    Named (Prepared.withoutDescription schema) := by
  cases schema with
  | obj fields =>
    intro inner hin
    cases hin with
    | root =>
      exact (h fields .root).congr (Prepared.value_erase_description fields (by decide))
    | through hx hin => exact h.child (Prepared.child_erase_description hx) inner hin
  | _ => exact h

/-- Preparing keeps the names. -/
theorem named_of_prepare {typeName : String} {schema prepared : Json} (h : Named schema)
    (hp : Prepared.prepare typeName schema = .ok prepared) : Named prepared := by
  rw [Prepared.prepare, Inversion.map_eq_ok] at hp
  obtain ⟨⟨_, visits⟩, hwalk, rfl⟩ := hp
  refine (walk_induction (fun _ => Named) Named ?_ ?_ ?_ (Nat.le_refl _)
    (named_withoutDescription h) hwalk).2
  · exact fun path x hno _ => named_of_not_node hno
  · intro path fields found hfields hfold child hchild
    have hsame : (Prepared.visitor typeName).visit path found =
        Prepared.node typeName path found := rfl
    rw [hsame, (Prepared.children_node typeName path found).1] at hchild
    have hmem : child.2 ∈ childValues found := by
      rw [← children_map_snd path]
      exact List.mem_map_of_mem hchild
    have hbelow := child_of_mem_found hfold hmem
    exact ⟨hbelow.depth_le, hfields.child hbelow⟩
  · intro path fields found new hfields hfold hkept hnew
    have hother : ∀ l : Key, (∀ key ∈ Prepared.touched, key.canon ≠ l.canon) →
        Fields.value (Prepared.node typeName path found) l = Fields.value found l :=
      fun l hl => Fields.value_congr (Prepared.get?_node_other typeName path found hl)
    refine named_withChildren ?_ ?_ hkept hnew
    · refine (hfields fields .root).congr ?_
      exact (hother "type" (by decide)).trans
        (Fields.value_congr (value_foldNode_other hfold (by decide)))
    · have hproperties := hother "properties" (by decide)
      intro entries hentries
      exact (properties_foldNode hfold).1 entries (hproperties.symm.trans hentries)

end SchemaDecl.Schema
