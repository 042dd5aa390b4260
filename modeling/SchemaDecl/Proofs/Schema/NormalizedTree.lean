import SchemaDecl.Proofs.Schema.ChildShapes
import SchemaDecl.Proofs.Schema.Idempotence
import SchemaDecl.Proofs.Schema.Origins

/-! The normalized tree as a whole. Each of its nodes is in normal form and was made
from one node of the schema that was given: its types have become the names the
table has for them, an array has at most one item, the names of its properties
have no blanks around them, and all that the rewriting is not about is left as it
was. The table may lead anywhere, also to names it would rewrite itself. -/

namespace SchemaDecl.Schema.Normal

open TypeNames

/-! The form of a node. -/

/-- What a name of a type becomes: what the table has for it in lower case, or that lower case. -/
inductive NamedBy (table : Fields) (name : String) : String → Prop
  | listed {target : String} :
      (.str (Text.lower name), .str target) ∈ table → NamedBy table name target
  | unlisted : (∀ entry ∈ table, entry.1 ≠ .str (Text.lower name)) →
      NamedBy table name (Text.lower name)

inductive EntryForm (table : Fields) : Json → Json → Prop
  | name {name target : String} :
      NamedBy table name target → EntryForm table (.str name) (.str target)
  | other {v : Json} : (∀ name, v ≠ .str name) → EntryForm table v v

/-- A type and what it becomes: a list is renamed entry by entry. -/
inductive TypeForm (table : Fields) : Json → Json → Prop
  | name {name target : String} :
      name ≠ "" → NamedBy table name target → TypeForm table (.str name) (.str target)
  | list {types renamed : List Json} :
      List.Forall₂ (EntryForm table) types renamed → TypeForm table (.arr types) (.arr renamed)
  | other {v : Json} : (∀ name, name ≠ "" → v ≠ .str name) → (∀ types, v ≠ .arr types) →
      TypeForm table v v

/-- The keywords that normalizing writes, and those that hold children. -/
def rewritten : List Key := "$ref" :: "$$ref" :: "type" :: "required" :: childKeys

/-- A node of the normalized tree, over the node it was made from. -/
structure NormalForm (table raw node : Fields) : Prop where
  references : Fields.get? node "$ref" = none ∧ Fields.get? node "$$ref" = none
  type : Option.Rel (TypeForm table) (Fields.get? raw "type") (Fields.get? node "type")
  items : Fields.value node "type" = .str "array" →
    ∀ item rest, Fields.value node "items" ≠ .arr (item :: rest)
  mapping : ∀ entries, Fields.value node "properties" ≠ .arr entries
  keys : ∀ properties, Fields.value node "properties" = .obj properties →
    ∀ p ∈ properties, ∀ name, p.1 = .str name → Text.strip name = name
  required : ∀ properties names, Fields.value node "properties" = .obj properties →
    Fields.value node "required" = .arr names → ∀ name, .str name ∈ names → Text.strip name = name
  beside : ∀ properties, Fields.value node "properties" = .obj properties →
    Fields.value node "required" = strippedRequired (Fields.value raw "required")
  alone : (∀ properties, Fields.value node "properties" ≠ .obj properties) →
    Fields.get? node "required" = Fields.get? raw "required"
  members : ∀ key ∈ combinators,
    Option.Rel (Entrywise Kept) (Fields.get? raw key) (Fields.get? node key)
  childless : ∀ key ∈ childKeys, (∀ xs, Fields.value raw key ≠ .arr xs) →
    (∀ fields, Fields.value raw key ≠ .obj fields) → Fields.value node key = Fields.value raw key
  unchanged : ∀ l ∉ rewritten, Fields.get? node l = Fields.get? raw l

/-! Names. -/

theorem mem_of_get?_str {fields : Fields} {name : String} {v : Json}
    (h : Fields.get? fields (.str name) = some v) : (.str name, v) ∈ fields := by
  induction fields with
  | nil => cases h
  | cons f rest ih =>
    rw [Fields.get?] at h
    split at h
    · rename_i hsame
      have hkey : f.1 = .str name := eq_str_of_canon (Key.same_iff.1 hsame)
      rw [← hkey, ← Option.some.inj h]
      exact List.mem_cons_self
    · exact List.mem_cons_of_mem _ (ih h)

theorem ne_of_get?_none {fields : Fields} {key : Key} (h : Fields.get? fields key = none) :
    ∀ f ∈ fields, f.1 ≠ key := by
  induction fields with
  | nil => simp
  | cons f rest ih =>
    rw [Fields.get?] at h
    split at h
    · cases h
    · rename_i hother
      refine List.forall_mem_cons.2 ⟨?_, ih h⟩
      rintro rfl
      exact hother (Key.same_refl _)

section
variable {table : Fields} (ht : NameTable table)
include ht

theorem exists_namedBy (name : String) :
    ∃ target, canonical table (.str name) = .str target ∧ NamedBy table name target := by
  rw [canonical_str]
  cases hget : Fields.get? table (.str (Text.lower name)) with
  | some v =>
    have hmem := mem_of_get?_str hget
    obtain ⟨target, rfl⟩ := ht.named _ hmem
    exact ⟨target, rfl, .listed hmem⟩
  | none => exact ⟨_, rfl, .unlisted (ne_of_get?_none hget)⟩

theorem entryForm_canonical (v : Json) : EntryForm table v (canonical table v) := by
  cases v with
  | str name =>
    obtain ⟨target, htarget, hnamed⟩ := exists_namedBy ht name
    rw [htarget]
    exact .name hnamed
  | _ => exact .other nofun

theorem typeForm_canonicalType {v : Json} (h : v.truthy = true) :
    TypeForm table v (canonicalType table v) := by
  cases v with
  | str name =>
    obtain ⟨target, htarget, hnamed⟩ := exists_namedBy ht name
    rw [canonicalType, htarget]
    · exact .name (by rintro rfl; simp [Json.truthy] at h) hnamed
    · simp
  | arr types =>
    refine .list ?_
    rw [List.forall₂_map_right_iff]
    exact List.forall₂_same.2 fun type _ => entryForm_canonical ht type
  | _ => exact .other (by simp) (by simp)

omit ht in
theorem typeForm_of_not_truthy {v : Json} (h : v.truthy = false) : TypeForm table v v := by
  cases v with
  | str name =>
    refine .other (fun other hother heq => hother ?_) (by simp)
    obtain rfl := Json.str.inj heq
    simpa [Json.truthy] using h
  | arr types =>
    obtain rfl : types = [] := by simpa [Json.truthy] using h
    exact .list .nil
  | _ => exact .other (by simp) (by simp)

theorem rel_type_node (fields : Fields) : Option.Rel (TypeForm table) (Fields.get? fields "type")
    (Fields.get? (node table fields) "type") := by
  have herased : Fields.get? (Fields.eraseAll fields ["$ref", "$$ref"]) "type" =
      Fields.get? fields "type" := Fields.get?_eraseAll_other fields (by decide)
  rw [node, get?_withStrippedNames_other _ (by decide) (by decide),
    get?_withOneItem_other _ (by decide), ← herased]
  generalize Fields.eraseAll fields ["$ref", "$$ref"] = inner
  dsimp only [withCanonicalType]
  split
  · rename_i htruthy
    rw [Fields.get?_set_same _ _ rfl, Fields.get?_of_value rfl fun hnull => by
      simp [hnull, Json.truthy] at htruthy]
    exact .some (typeForm_canonicalType ht htruthy)
  · rename_i hfalsy
    cases hget : Fields.get? inner "type" with
    | none => exact .none
    | some v =>
      rw [Fields.value_of_get? hget] at hfalsy
      exact .some (typeForm_of_not_truthy (by simpa using hfalsy))
end

/-! Nodes of the tree. -/

theorem distinct_visitor (table : Fields) : (visitor table).Distinct := by
  intro path found
  refine nodup_steps ?_
  rw [properties, visit_eq, value_node_properties]
  cases Fields.value found "properties" with
  | obj given => exact Fields.nodup_of_separate (Fields.separate_ofList _)
  | _ => exact List.nodup_nil

theorem strip_of_mem_strippedRequired {v : Json} {names : List Json}
    (h : strippedRequired v = .arr names) {name : String} (hname : .str name ∈ names) :
    Text.strip name = name := by
  cases v with
  | arr given =>
    rw [← Json.arr.inj h] at hname
    obtain ⟨entry, _, hentry⟩ := List.mem_map.1 hname
    cases entry with
    | str s => rw [← Json.str.inj hentry, Text.strip_strip]
    | _ => cases hentry
  | _ => cases h

section
variable {table raw found node : Fields} {path : Path}
  (hw : Walked (visitor table) path raw found node)
include hw

/-- A mapping of properties was a mapping before its names were stripped. -/
theorem stripped_of_walked {ps : Fields} (h : Fields.value node "properties" = .obj ps) :
    Stripped ps ∧ ∃ given, Fields.value found "properties" = .obj given := by
  obtain ⟨new, _, rfl⟩ := hw.written
  obtain ⟨old, hold, rfl⟩ := exists_properties_of_withChildren h
  rw [visit_eq, value_node_properties] at hold
  cases hv : Fields.value found "properties" with
  | obj given =>
    rw [hv] at hold
    rw [← Json.obj.inj hold]
    exact ⟨stripped_withValues (stripped_stripProperties given) _, given, rfl⟩
  | _ => rw [hv] at hold; cases hold

theorem mapping_of_walked {given : Fields} (h : Fields.value found "properties" = .obj given) :
    ∃ ps, Fields.value node "properties" = .obj ps := by
  obtain ⟨new, _, rfl⟩ := hw.written
  have hstripped : Fields.value (Normal.node table found) "properties" =
      .obj (stripProperties given) := by
    rw [value_node_properties, h]
    rfl
  rw [value_withChildren_properties, visit_eq, value_withProperties _ hstripped]
  exact ⟨_, rfl⟩

theorem required_of_walked {ps : Fields} (h : Fields.value node "properties" = .obj ps) :
    Fields.value node "required" = strippedRequired (Fields.value raw "required") := by
  obtain ⟨_, given, hgiven⟩ := stripped_of_walked hw h
  obtain ⟨new, _, rfl⟩ := hw.written
  rw [value_withChildren_other _ _ (by decide), visit_eq, value_node_required _ _ hgiven,
    value_found_other hw.folded (by decide)]

theorem items_of_walked (hi : SimpleItems raw) (h : Fields.value node "type" = .str "array")
    (item : Json) (rest : List Json) : Fields.value node "items" ≠ .arr (item :: rest) := by
  obtain ⟨new, hkept, rfl⟩ := hw.written
  refine not_list_withChildren hkept ?_ item rest
  rw [value_withChildren_other _ _ (by decide)] at h
  refine oneItem_eq_self_iff.1 ?_ h
  rw [visit_eq, value_node_items]
  exact oneItem_oneItem (simpleItems_found hw.folded hi)

/-- Where a node has no children under a keyword, its value stays. -/
theorem childless_of_walked {key : Key} (hkey : key ∈ childKeys)
    (harr : ∀ xs, Fields.value raw key ≠ .arr xs)
    (hobj : ∀ fields, Fields.value raw key ≠ .obj fields) :
    Fields.value node key = Fields.value raw key := by
  obtain ⟨new, hkept, rfl⟩ := hw.written
  have hsame : Fields.value (Normal.node table found) key = Fields.value raw key := by
    simp only [childKeys, List.mem_cons] at hkey
    rcases hkey with rfl | rfl | hkey
    · have hfound := hw.folded
      rw [foldNode_of_not_arr harr] at hfound
      rw [value_node_properties, ← Except.ok.inj hfound]
      cases hv : Fields.value raw "properties" with
      | obj fields => exact absurd hv (hobj fields)
      | _ => rfl
    · rw [value_node_items, value_found_other hw.folded (by decide)]
      exact oneItem_eq_self_iff.2 fun _ item rest hlist => harr _ hlist
    · have hother : (Key.str "properties").canon ≠ key.canon := by
        clear harr hobj
        revert key
        decide
      rw [value_node_combinator _ _ hkey, value_found_other hw.folded hother]
  rw [visit_eq] at hkept ⊢
  rw [← hsame] at harr hobj ⊢
  exact value_withChildren_leaf hkept hkey harr hobj

theorem get?_of_walked {l : Key} (hl : ∀ key ∈ childKeys, key.canon ≠ l.canon) :
    Fields.get? node l = Fields.get? (Normal.node table found) l := by
  obtain ⟨new, _, rfl⟩ := hw.written
  exact get?_withChildren_other _ _ hl

/-- All that the rewriting is not about is left as it was. -/
theorem get?_of_walked_other {l : Key} (hl : l ∉ rewritten) :
    Fields.get? node l = Fields.get? raw l := by
  have hne := canon_ne_of_not_mem (by decide) hl
  have hchild : ∀ key ∈ childKeys, key.canon ≠ l.canon := fun key hkey =>
    hne key (by simp [rewritten, hkey])
  rw [get?_of_walked hw hchild, get?_node_other _ _ (fun key hkey => hne key ?_) (hne _ (by decide))
    (hne _ (by decide)) (hne _ (by decide)) (hne _ (by decide)),
    value_foldNode_other hw.folded (hne _ (by decide))]
  revert key
  decide

/-- A node the walk has made is in normal form. -/
theorem normalForm_of_walked (ht : NameTable table) (hi : SimpleItems raw) :
    NormalForm table raw node where
  references := by
    rw [get?_of_walked hw (by decide), get?_of_walked hw (by decide)]
    exact ⟨get?_node_reference _ _ (by decide), get?_node_reference _ _ (by decide)⟩
  type := by
    rw [get?_of_walked hw (by decide), ← value_foldNode_other hw.folded (by decide)]
    exact rel_type_node ht found
  items := items_of_walked hw hi
  mapping := by
    obtain ⟨new, _, rfl⟩ := hw.written
    exact properties_withChildren_not_arr
      (properties_node_not_arr (properties_foldNode hw.folded).1)
  keys ps hps p hp name hname := by
    have hstripped := (stripped_of_walked hw hps).1.2 p hp
    rw [hname] at hstripped
    exact Key.str.inj hstripped
  required ps names hps hnames name hname := by
    rw [required_of_walked hw hps] at hnames
    exact strip_of_mem_strippedRequired hnames hname
  beside ps hps := required_of_walked hw hps
  alone hno := by
    rw [get?_of_walked hw (by decide), get?_node_required,
      value_foldNode_other hw.folded (by decide)]
    intro given hgiven
    obtain ⟨ps, hps⟩ := mapping_of_walked hw hgiven
    exact hno ps hps
  members key hkey := by
    have hproperties : (Key.str "properties").canon ≠ key.canon := by
      revert key
      decide
    obtain ⟨new, hkept, rfl⟩ := hw.written
    rw [← value_foldNode_other hw.folded hproperties, ← get?_node_combinator table found hkey]
    exact rel_members_withChildren hkept hkey
  childless key hkey harr hobj := childless_of_walked hw hkey harr hobj
  unchanged l hl := get?_of_walked_other hw hl
end

/-- What a walk comes to stood in the place of a schema before. -/
theorem reaches_of_origin {table : Fields} {path : Path} {schema x : Json} {address : Address}
    (h : Origin (visitor table) path schema address x) (hs : SimpleTree schema) :
    Reaches schema x := by
  induction h with
  | here => exact .root
  | through hfold hmem _ ih =>
    have hchild := child_of_mem_node hfold hs.root (mem_childValues_of_mem_steps hmem)
    exact .through hchild (ih (hs.child hchild))

/-- A schema whose nodes can be folded and whose items do not start with a list is normalized into a
tree whose nodes are all in normal form, each over the node it was made from. What is no node stands
there as it was given. -/
theorem normalized_nodes_in_form (custom : List (String × String)) {schema : Json}
    (hs : SimpleTree schema) :
    ∃ table, tableOf? (.obj (named custom)) = some table ∧
      ((∀ path node, Comes (visitor table) [] schema path node → Foldable node) →
        ∃ result, normalize table schema = .ok result ∧ Kept schema result ∧
          ∀ address node, At result address node →
            ∃ raw, Origin (visitor table) [] schema address (.obj raw) ∧
              Reaches schema (.obj raw) ∧ NormalForm table raw node ∧ ∀ step x,
                (step, x) ∈ steps node → (∀ fields, x ≠ .obj fields) →
                  Origin (visitor table) [] schema (address ++ [step]) x) := by
  refine ⟨_, tableOf?_obj _, fun hfoldable => ?_⟩
  have ht := nameTable_table custom
  generalize table (named custom) = table at ht hfoldable
  have hv := shallow_visitor table
  obtain ⟨result, visits, hwalk⟩ := walk_total hv (Nat.le_refl (schema.depth + 0)) hfoldable
  refine ⟨result, normalize_eq_ok.2 ⟨visits, hwalk⟩, kept_of_walk hwalk, fun address node hat => ?_⟩
  obtain ⟨raw, found, horigin, hw⟩ := exists_origin hv (Nat.le_refl _) hwalk hat
  have hreaches := reaches_of_origin horigin hs
  exact ⟨raw, horigin, hreaches, normalForm_of_walked hw ht (hs raw hreaches),
    fun step x hx hno => hw.leaf horigin hx hno⟩

/-- Names that fall together, a type to be renamed in a list, two items of an array, a list of
properties below a combinator, and what looks like a schema where the walk does not go. -/
def untidy : Json :=
  .obj [("$ref", .str "a"), ("type", .arr [.str "DATE", .str "Object", .int 1]),
    ("required", .arr [.str " b", .null]),
    ("properties", .obj [
      (" b ", .bool true), ("a", .obj [("type", .str "ARRAY"), ("items", .arr [.obj [], .obj []])]),
      ("b", .obj [("const", .obj [("$ref", .str "b"), ("type", .str "INT")])])]),
    ("oneOf", .arr [.obj [("properties", .arr [.obj [("name", .str " c")]])], .null]),
    ("additionalProperties", .obj [("type", .str "INT")])]

theorem normalized_nodes_in_form_untidy :
    SimpleTree untidy ∧ ∃ table, tableOf? (.obj (named [("Date", "String")])) = some table ∧
      (∀ path node, Comes (visitor table) [] untidy path node → Foldable node) ∧
      ∃ result, normalize table untidy = .ok result ∧ Kept untidy result ∧
        ∀ address node, At result address node →
          ∃ raw, Origin (visitor table) [] untidy address (.obj raw) ∧
            Reaches untidy (.obj raw) ∧ NormalForm table raw node ∧ ∀ step x,
              (step, x) ∈ steps node → (∀ fields, x ≠ .obj fields) →
                Origin (visitor table) [] untidy (address ++ [step]) x := by
  have hsimple : SimpleTree untidy := by
    have hcheck : checkNodes (fun fields => decide (SimpleItems fields)) 4 untidy = true := by
      decide +kernel
    exact fun fields hreaches => ((everywhere_of_checkNodes hcheck).reaches hreaches).root
  have hnamed : Everywhere WellNamed untidy := by
    have hcheck : checkNodes (fun fields => decide (WellNamed fields)) 4 untidy = true := by
      decide +kernel
    exact everywhere_of_checkNodes hcheck
  obtain ⟨table, htable, hresult⟩ := normalized_nodes_in_form [("Date", "String")] hsimple
  have hfoldable : ∀ path node, Comes (visitor table) [] untidy path node → Foldable node :=
    fun _ _ hcomes => (orderly_normal table).foldable hnamed hcomes
  exact ⟨hsimple, table, htable, hfoldable, hresult hfoldable⟩

end SchemaDecl.Schema.Normal
