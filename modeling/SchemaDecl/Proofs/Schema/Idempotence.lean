import SchemaDecl.Proofs.Schema.Nodes
import SchemaDecl.Proofs.Schema.NormalForm

/-! Normalizing a schema twice. A normalized tree consists of nodes in normal
form, so a second pass finds nothing to do, provided that the names in the table
of types are themselves settled: each of them has to stand for itself. Where one
does not, a node that lists only the key of that entry as its type still moves
in the second pass, so the condition is exact. The built-in table meets it. -/

namespace SchemaDecl.Schema.Normal

open TypeNames

/-- Nowhere in the tree do the items of a node start with a list. -/
def SimpleTree (schema : Json) : Prop :=
  ∀ fields, Reaches schema (.obj fields) → SimpleItems fields

theorem SimpleTree.root {fields : Fields} (h : SimpleTree (.obj fields)) : SimpleItems fields :=
  h fields .root

theorem SimpleTree.child {fields : Fields} {x : Json} (h : SimpleTree (.obj fields))
    (hx : Child fields x) : SimpleTree x :=
  fun below hbelow => h below (.through hx hbelow)

/-! The children of a rewritten node stood below it before. -/

section
variable {table fields found : Fields} (hfold : foldNode fields = .ok found)
include hfold

theorem value_found_other {l : Key} (hl : (Key.str "properties").canon ≠ l.canon) :
    Fields.value found l = Fields.value fields l :=
  Fields.value_congr (value_foldNode_other hfold hl)

theorem simpleItems_found (h : SimpleItems fields) : SimpleItems found := by
  intro xs rest
  rw [value_found_other hfold (by decide)]
  exact h xs rest

theorem child_of_mem_properties_node {f : Key × Json}
    (hf : f ∈ properties (node table found)) : Child fields f.2 := by
  rw [properties, value_node_properties] at hf
  cases hv : Fields.value found "properties" with
  | obj old =>
    simp only [hv, strippedProperties] at hf
    obtain ⟨key, hkey⟩ := mem_stripProperties hf
    exact (properties_foldNode hfold).2 old (key, f.2) hv hkey
  | _ => simp only [hv, strippedProperties, List.not_mem_nil] at hf

/-- What stands among the items of a rewritten node stood there before, or in a list that was
the first of them. -/
theorem mem_items_node {x : Json} (hx : x ∈ items (node table found)) :
    x ∈ items fields ∨
      ∃ xs rest, Fields.value fields "items" = .arr (.arr xs :: rest) ∧ x ∈ xs := by
  rw [items, value_node_items, value_found_other hfold (by decide)] at hx
  by_cases hone : ∃ item rest, Fields.value (node table found) "type" = .str "array" ∧
      Fields.value fields "items" = .arr (item :: rest)
  · obtain ⟨item, rest, htype, hitems⟩ := hone
    simp only [htype, hitems, oneItem] at hx
    have hfirst : item ∈ items fields := by
      simp only [items, hitems, List.mem_cons_self]
    cases item with
    | arr xs => exact .inr ⟨xs, rest, hitems, hx⟩
    | null => simp only [List.not_mem_nil] at hx
    | _ =>
      rw [List.mem_singleton] at hx
      exact .inl (hx ▸ hfirst)
  · have hsame := oneItem_eq_self_iff.2 fun htype item rest hitems =>
      hone ⟨item, rest, htype, hitems⟩
    rw [hsame, ← items] at hx
    exact .inl hx

theorem child_or_nested_of_mem_node {x : Json} (hx : x ∈ childValues (node table found)) :
    Child fields x ∨
      ∃ xs rest, Fields.value fields "items" = .arr (.arr xs :: rest) ∧ x ∈ xs := by
  rw [childValues, List.mem_append, List.mem_append] at hx
  rcases hx with hx | hx | hx
  · obtain ⟨f, hf, rfl⟩ := List.mem_map.1 hx
    exact .inl (child_of_mem_properties_node hfold hf)
  · exact (mem_items_node hfold hx).imp_left .item
  · obtain ⟨key, hkey, hx⟩ := List.mem_flatMap.1 hx
    have hother : (Key.str "properties").canon ≠ key.canon := by
      clear hx
      revert key
      decide
    rw [members, value_node_combinator table found hkey, value_found_other hfold hother,
      ← members] at hx
    exact .inl (.member hkey hx)

theorem child_of_mem_node (hi : SimpleItems fields) {x : Json}
    (hx : x ∈ childValues (node table found)) : Child fields x := by
  rcases child_or_nested_of_mem_node hfold hx with hchild | ⟨xs, rest, hitems, _⟩
  · exact hchild
  · exact absurd hitems (hi xs rest)
end

/-! A normalized tree. -/

theorem visit_eq (table : Fields) (path : Path) (fields : Fields) :
    (visitor table).visit path fields = node table fields := rfl

/-- A tree that the walk gives back as it is, from any place and to any depth. -/
def Settled (table : Fields) (schema : Json) : Prop :=
  ∀ levels path, ∃ visits, walk (visitor table) levels path schema = .ok (schema, visits)

theorem settled_of_not_node {table : Fields} {schema : Json} (h : ∀ fields, schema ≠ .obj fields) :
    Settled table schema := fun levels path => ⟨[], walk_of_not_node _ levels path h⟩

/-- A node in normal form over settled children is settled. -/
theorem settled_of_normal {table fields : Fields} (hn : NormalNode table fields)
    (hp : ∀ entries, Fields.value fields "properties" ≠ .arr entries)
    (hc : ∀ x ∈ childValues fields, Settled table x) : Settled table (.obj fields) := by
  intro levels path
  cases levels with
  | zero => exact ⟨[], rfl⟩
  | succ levels =>
    have hchildren : ∀ child ∈ children path fields, ∃ visits,
        walk (visitor table) levels child.1 child.2 = .ok (child.2, visits) := by
      intro child hchild
      apply hc
      rw [← children_map_snd path]
      exact List.mem_map_of_mem hchild
    obtain ⟨below, hbelow⟩ := walkAll_of_fixed hchildren
    rw [children_map_snd] at hbelow
    refine ⟨⟨path, fields⟩ :: below, ?_⟩
    simp only [walk, walkNode, Inversion.bind_eq_ok, Inversion.pure_eq_ok]
    refine ⟨fields, foldNode_of_not_arr hp, (childValues fields, below), ?_, ?_⟩
    · rw [visit_eq, node_of_normal hn]
      exact hbelow
    · rw [visit_eq, node_of_normal hn, withChildren_childValues]

theorem properties_node_not_arr {table found : Fields}
    (h : ∀ entries, Fields.value found "properties" ≠ .arr entries) (entries : List Json) :
    Fields.value (node table found) "properties" ≠ .arr entries := by
  rw [value_node_properties]
  cases hv : Fields.value found "properties" with
  | arr old => exact absurd hv (h old)
  | _ => simp [strippedProperties]

theorem properties_withChildren_not_arr {fields : Fields} {new : List Json}
    (h : ∀ entries, Fields.value fields "properties" ≠ .arr entries) (entries : List Json) :
    Fields.value (withChildren fields new) "properties" ≠ .arr entries := by
  rw [value_withChildren_properties]
  by_cases hobj : ∃ old, Fields.value fields "properties" = .obj old
  · obtain ⟨old, hold⟩ := hobj
    rw [value_withProperties _ hold]
    simp
  · rw [withProperties_of_not_obj _ fun old hold => hobj ⟨old, hold⟩]
    exact h entries

/-- One node of the walk: it ends in normal form, and its properties are no list. -/
theorem formed_withChildren {table fields found : Fields} {new : List Json} (hc : Closed table)
    (hi : SimpleItems fields) (hfold : foldNode fields = .ok found)
    (hk : List.Forall₂ Kept (childValues (node table found)) new) :
    NormalNode table (withChildren (node table found) new) ∧
      ∀ entries, Fields.value (withChildren (node table found) new) "properties" ≠ .arr entries :=
  ⟨normalNode_withChildren (normalNode_node hc (simpleItems_found hfold hi)) hk,
    properties_withChildren_not_arr (properties_node_not_arr (properties_foldNode hfold).1)⟩

/-- Settled children below a rewritten node leave it settled. -/
theorem settled_withChildren {table fields found : Fields} {new : List Json} (hc : Closed table)
    (hi : SimpleItems fields) (hfold : foldNode fields = .ok found)
    (hk : List.Forall₂ Kept (childValues (node table found)) new)
    (hs : ∀ x ∈ new, Settled table x) :
    Settled table (.obj (withChildren (node table found) new)) := by
  obtain ⟨hnormal, hmapping⟩ := formed_withChildren hc hi hfold hk
  refine settled_of_normal hnormal hmapping ?_
  rw [childValues_withChildren hk]
  exact hs

/-- Whatever the walk returns is settled. -/
theorem settled_of_walk {table : Fields} (hc : Closed table) {levels : Nat} {path : Path}
    {schema result : Json} {visits : List Visit} (hdepth : schema.depth ≤ levels)
    (hs : SimpleTree schema)
    (h : walk (visitor table) levels path schema = .ok (result, visits)) :
    Kept schema result ∧ Settled table result := by
  refine walk_induction (fun _ => SimpleTree) (Settled table) ?_ ?_ ?_ hdepth hs h
  · intro path schema hno _
    exact settled_of_not_node hno
  · intro path fields found hsimple hfold child hchild
    have hmem : child.2 ∈ childValues (node table found) := by
      rw [← children_map_snd path]
      exact List.mem_map_of_mem hchild
    have hbelow := child_of_mem_node hfold hsimple.root hmem
    exact ⟨hbelow.depth_le, hsimple.child hbelow⟩
  · intro path fields found new hsimple hfold hkept hsettled
    exact settled_withChildren hc hsimple.root hfold hkept hsettled

/-! Tables. -/

theorem normalize_eq_ok {table : Fields} {schema result : Json} :
    normalize table schema = .ok result ↔ ∃ visits,
      walk (visitor table) (schema.depth + 0) [] schema = .ok (result, visits) := by
  simp only [normalize, Inversion.map_eq_ok]
  constructor
  · rintro ⟨⟨found, visits⟩, h, rfl⟩
    exact ⟨visits, h⟩
  · rintro ⟨visits, h⟩
    exact ⟨(result, visits), h, rfl⟩

/-- Normalizing again what was normalized changes nothing. -/
def Idempotent (table : Fields) : Prop :=
  ∀ schema result, SimpleTree schema → normalize table schema = .ok result →
    normalize table result = .ok result

theorem Closed.idempotent {table : Fields} (hc : Closed table) : Idempotent table := by
  intro schema result hs h
  obtain ⟨visits, h⟩ := normalize_eq_ok.1 h
  exact normalize_eq_ok.2 ((settled_of_walk hc (Nat.le_refl _) hs h).2 _ _)

/-- A node with nothing but a list of one type. -/
def typed (type : Json) : Fields := [("type", .arr [type])]

theorem typed_inj {type type' : Json} (h : typed type = typed type') : type = type' := by
  simpa [typed] using h

theorem members_typed (type : Json) {key : Key} (h : key ∈ combinators) :
    members (typed type) key = [] := by
  simp only [combinators, List.mem_cons, List.not_mem_nil, or_false] at h
  rcases h with rfl | rfl | rfl <;> rfl

theorem simpleTree_typed (type : Json) : SimpleTree (.obj (typed type)) := by
  intro fields h
  cases h with
  | root => intro xs rest; exact nofun
  | through hchild _ =>
    cases hchild with
    | property hp _ => cases hp
    | entry hp _ => cases hp
    | item hx => exact nomatch hx
    | member hkey hx => rw [members_typed type hkey] at hx; cases hx

theorem foldNode_typed (type : Json) : foldNode (typed type) = .ok (typed type) := rfl

theorem node_typed (table : Fields) (type : Json) :
    node table (typed type) = typed (canonical table type) := rfl

theorem children_typed (path : Path) (type : Json) : children path (typed type) = [] := rfl

theorem withChildren_typed (type : Json) : withChildren (typed type) [] = typed type := rfl

theorem normalize_typed (table : Fields) (type : Json) :
    normalize table (.obj (typed type)) = .ok (.obj (typed (canonical table type))) := by
  refine normalize_eq_ok.2 ⟨[⟨[], typed type⟩], ?_⟩
  rw [Json.depth]
  simp only [walk, walkNode, Inversion.bind_eq_ok, Inversion.pure_eq_ok]
  refine ⟨_, foldNode_typed type, ([], []), ?_, ?_⟩
  · rw [visit_eq, node_typed, children_typed]
    rfl
  · rw [visit_eq, node_typed, withChildren_typed]

/-- The fields of a mapping of names to names. -/
def named (custom : List (String × String)) : Fields :=
  custom.map fun entry => (.str entry.1, .str entry.2)

/-- A table as it is built: its keys are separate names in lower case, and they stand for names. -/
structure NameTable (table : Fields) : Prop where
  separate : Fields.Separate table
  lowered : ∀ entry ∈ table, ∃ name, entry.1 = .str (Text.lower name)
  named : ∀ entry ∈ table, ∃ name, entry.2 = .str name

theorem nameTable_builtin : NameTable builtin where
  separate := by
    unfold Fields.Separate
    decide +kernel
  lowered := by
    have hnames : ∀ entry ∈ builtin, ∃ name, entry.1 = .str name := by
      simp [builtin]
    have hlower : ∀ entry ∈ builtin, lowerKey entry.1 = entry.1 := by decide +kernel
    intro entry hentry
    obtain ⟨name, hname⟩ := hnames entry hentry
    refine ⟨name, ?_⟩
    rw [← hlower entry hentry, hname, lowerKey]
  named := by simp [builtin]

theorem nameTable_table (custom : List (String × String)) : NameTable (table (named custom)) where
  separate := Fields.separate_update nameTable_builtin.separate _
  lowered := by
    intro entry hentry
    obtain ⟨g, hg, hkey⟩ := (Fields.mem_update hentry).1
    rw [← hkey]
    rcases List.mem_append.1 hg with hg | hg
    · exact nameTable_builtin.lowered g hg
    · obtain ⟨g', hg', hkey'⟩ := (Fields.mem_ofList hg).1
      simp only [named, List.map_map, List.mem_map] at hg'
      obtain ⟨given, _, rfl⟩ := hg'
      exact ⟨given.1, hkey'.symm⟩
  named := by
    intro entry hentry
    obtain ⟨g, hg, hvalue⟩ := (Fields.mem_update hentry).2
    rw [← hvalue]
    rcases List.mem_append.1 hg with hg | hg
    · exact nameTable_builtin.named g hg
    · obtain ⟨g', hg', hvalue'⟩ := (Fields.mem_ofList hg).2
      simp only [named, List.map_map, List.mem_map] at hg'
      obtain ⟨given, _, rfl⟩ := hg'
      exact ⟨given.2, hvalue'.symm⟩

theorem tableOf?_obj (entries : Fields) : tableOf? (.obj entries) = some (table entries) := by
  cases entries with
  | nil => rfl
  | cons entry rest => rfl

theorem closed_of_idempotent {table : Fields} (ht : NameTable table) (h : Idempotent table) :
    ∀ entry ∈ table, canonical table entry.2 = entry.2 := by
  intro entry hentry
  obtain ⟨name, hname⟩ := ht.lowered entry hentry
  have hfound : canonical table (.str name) = entry.2 := by
    rw [canonical_str, ← hname, Fields.get?_of_mem ht.separate hentry, Option.getD_some]
  have hfirst := normalize_typed table (.str name)
  rw [hfound] at hfirst
  have hsecond := h _ _ (simpleTree_typed _) hfirst
  rw [normalize_typed] at hsecond
  exact typed_inj (Json.obj.inj (Except.ok.inj hsecond))

/-- With a mapping of names to names, normalizing is idempotent exactly if every name in the
table stands for itself. Without one it always is. -/
theorem idempotent_iff_fixed :
    (∀ custom : List (String × String), ∃ table, tableOf? (.obj (named custom)) = some table ∧
      (Idempotent table ↔ ∀ entry ∈ table, canonical table entry.2 = entry.2)) ∧
    ∃ table, tableOf? .null = some table ∧ Idempotent table := by
  refine ⟨fun custom => ⟨_, tableOf?_obj _, ?_⟩, builtin, rfl, ?_⟩
  · have ht := nameTable_table custom
    exact ⟨closed_of_idempotent ht, fun hfixed => Closed.idempotent ⟨hfixed, ht.named⟩⟩
  · exact Closed.idempotent ⟨by decide +kernel, nameTable_builtin.named⟩

end SchemaDecl.Schema.Normal
