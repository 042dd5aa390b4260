import SchemaDecl.Proofs.Schema.PreparedViews

/-! Passes over a schema that was normalized and then prepared. Normalizing and
preparing share the tree: each drops keywords that the other, or its own next
run, would read. After both have run, every node is in a form that neither of
them changes any more, in whatever order they run again. -/

namespace SchemaDecl.Schema

inductive Pass
  | normalize
  | prepare

def Pass.run (table : Fields) (typeName : String) : Pass → Json → Except FoldFault Json
  | .normalize => Normal.normalize table
  | .prepare => Prepared.prepare typeName

def runPasses (table : Fields) (typeName : String) (passes : List Pass) (schema : Json) :
    Except FoldFault Json :=
  passes.foldlM (fun schema pass => pass.run table typeName schema) schema

/-- A node with a title has no reference in its description. -/
def OneReference (fields : Fields) : Prop :=
  Fields.value fields "title" ≠ .null →
    Reference.ofText? (Fields.value fields "description") = none

instance : DecidablePred OneReference := fun _ => inferInstanceAs (Decidable (_ → _))

/-- No node below the root has a title and a reference in its description. -/
def OneReferenceBelow (schema : Json) : Prop :=
  ∀ root child node, schema = .obj root → Child root child → Reaches child (.obj node) →
    OneReference node

theorem oneReference_congr {fs gs : Fields}
    (htitle : Fields.get? gs "title" = Fields.get? fs "title")
    (hdescription : Fields.get? gs "description" = Fields.get? fs "description")
    (h : OneReference fs) : OneReference gs := by
  rw [OneReference, Fields.value_congr htitle, Fields.value_congr hdescription]
  exact h

/-! Normalized nodes. -/

/-- A node in normal form that preparing finds with at most one reference. -/
structure Plain (table fields : Fields) : Prop where
  normal : Normal.NormalNode table fields
  mapping : ∀ entries, Fields.value fields "properties" ≠ .arr entries
  reference : OneReference fields

/-- The keywords that a normal form is about. -/
def normalKeys : List Key := ["$ref", "$$ref", "type", "items", "properties", "required"]

theorem normalNode_congr {table fs gs : Fields}
    (h : ∀ key ∈ normalKeys, Fields.get? gs key = Fields.get? fs key)
    (hn : Normal.NormalNode table fs) : Normal.NormalNode table gs := by
  have htype := Fields.value_congr (h "type" (by decide))
  have hitems := Fields.value_congr (h "items" (by decide))
  have hproperties := Fields.value_congr (h "properties" (by decide))
  have hrequired := Fields.value_congr (h "required" (by decide))
  constructor
  · intro key hkey
    have hmem : key ∈ normalKeys := by
      revert key
      decide
    rw [h key hmem, hn.references key hkey]
  · rw [htype]
    exact hn.type
  · rw [htype, hitems]
    exact hn.items
  · rw [hproperties]
    exact hn.properties
  · rw [hproperties, hrequired]
    exact hn.required

theorem plain_erase_description {table fields : Fields} (hn : Normal.NormalNode table fields)
    (hp : ∀ entries, Fields.value fields "properties" ≠ .arr entries) :
    Plain table (Fields.erase fields "description") where
  normal := by
    refine normalNode_congr (fun key hkey => Fields.get?_erase_other fields ?_) hn
    revert key
    decide
  mapping := by
    rw [Prepared.value_erase_description fields (by decide)]
    exact hp
  reference _ := by
    rw [Fields.value, Fields.get?_erase_same fields rfl]
    rfl

section
variable {table fields found : Fields} {new : List Json} (hc : Normal.Closed table)
include hc

/-- Normalizing a node leaves its title and its description alone. -/
theorem plain_withChildren (hi : Normal.SimpleItems fields) (hreference : OneReference fields)
    (hfold : foldNode fields = .ok found)
    (hk : List.Forall₂ Kept (childValues (Normal.node table found)) new) :
    Plain table (withChildren (Normal.node table found) new) where
  normal := (Normal.formed_withChildren hc hi hfold hk).1
  mapping := (Normal.formed_withChildren hc hi hfold hk).2
  reference := by
    refine oneReference_congr ?_ ?_ hreference
    · rw [get?_withChildren_other _ _ (by decide), Normal.get?_node_other _ _ (by decide)
        (by decide) (by decide) (by decide) (by decide), value_foldNode_other hfold (by decide)]
    · rw [get?_withChildren_other _ _ (by decide), Normal.get?_node_other _ _ (by decide)
        (by decide) (by decide) (by decide) (by decide), value_foldNode_other hfold (by decide)]

omit hc in
theorem child_of_mem_children {path : Path} (hs : Normal.SimpleTree (.obj fields))
    (hfold : foldNode fields = .ok found) {child : Path × Json}
    (hchild : child ∈ children path (Normal.node table found)) : Child fields child.2 := by
  have hmem : child.2 ∈ childValues (Normal.node table found) := by
    rw [← children_map_snd path]
    exact List.mem_map_of_mem hchild
  exact Normal.child_of_mem_node hfold hs.root hmem

theorem atEach_plain_of_walk {levels : Nat} {path : Path} {schema result : Json}
    {visits : List Visit} (hdepth : schema.depth ≤ levels) (hs : Normal.SimpleTree schema)
    (hreference : ∀ node, Reaches schema (.obj node) → OneReference node)
    (h : walk (Normal.visitor table) levels path schema = .ok (result, visits)) :
    Kept schema result ∧ AtEach (fun _ => Plain table) path result := by
  refine walk_made (fun _ x => Normal.SimpleTree x ∧
      ∀ node, Reaches x (.obj node) → OneReference node)
    (fun path y _ => AtEach (fun _ => Plain table) path y) ?_ ?_ ?_ hdepth ⟨hs, hreference⟩ h
  · exact fun path x hno _ => atEach_of_not_node hno
  · rintro path fields found ⟨hs, hreference⟩ hfold child hchild
    have hbelow := child_of_mem_children hs hfold hchild
    exact ⟨hbelow.depth_le, hs.child hbelow,
      fun node hnode => hreference node (.through hbelow hnode)⟩
  · rintro path fields found results ⟨hs, hreference⟩ hfold hkept hall
    refine atEach_withChildren hkept
      (plain_withChildren hc hs.root (hreference fields .root) hfold hkept) ?_
    rwa [List.forall₂_map_right_iff]

/-- Once its description is dropped, the root of a normalized schema is plain as well. -/
theorem atEach_plain_of_normalize {schema normal : Json} (hs : Normal.SimpleTree schema)
    (hreference : OneReferenceBelow schema) (h : Normal.normalize table schema = .ok normal) :
    AtEach (fun _ => Plain table) [] (Prepared.withoutDescription normal) := by
  obtain ⟨visits, hwalk⟩ := Normal.normalize_eq_ok.1 h
  by_cases hno : ∀ fields, schema ≠ .obj fields
  · rw [walk_of_not_node _ _ _ hno] at hwalk
    obtain ⟨rfl, _⟩ := Prod.mk.inj (Except.ok.inj hwalk)
    rw [Prepared.withoutDescription_of_not_node hno]
    exact atEach_of_not_node hno
  push Not at hno
  obtain ⟨fields, rfl⟩ := hno
  obtain ⟨found, results, hfold, rfl, _, hall⟩ := walk_obj_eq_ok hwalk
  rw [Normal.visit_eq] at hall ⊢
  have hbelow : List.Forall₂ (fun child x => Kept child.2 x ∧
      AtEach (fun _ => Plain table) child.1 x) (children [] (Normal.node table found))
      (results.map Prod.fst) := by
    rw [List.forall₂_map_right_iff]
    refine List.forall₂_iff_zip.2 ⟨hall.length_eq, fun {child result} hzip => ?_⟩
    have hchild := child_of_mem_children hs hfold (List.of_mem_zip hzip).1
    exact atEach_plain_of_walk hc hchild.depth_le (hs.child hchild)
      (fun node hnode => hreference fields child.2 node rfl hchild hnode)
      (List.forall₂_zip hall hzip)
  have hkept : List.Forall₂ Kept (childValues (Normal.node table found))
      (results.map Prod.fst) := by
    rw [← children_map_snd [], List.forall₂_map_left_iff]
    exact hbelow.imp fun _ _ hx => hx.1
  obtain ⟨hnormal, hmapping⟩ := Normal.formed_withChildren hc hs.root hfold hkept
  refine atEach_obj (plain_erase_description hnormal hmapping) fun child hchild => ?_
  rw [(Prepared.children_erase_description [] _).1] at hchild
  exact atEach_below hkept (hbelow.imp fun _ _ hx => hx.2) hchild
end

/-! Prepared nodes. -/

/-- A node that neither pass would change, where it stands. -/
structure Stable (table : Fields) (typeName : String) (path : Path) (fields : Fields) : Prop where
  normal : Normal.NormalNode table fields
  mapping : ∀ entries, Fields.value fields "properties" ≠ .arr entries
  prepared : Prepared.node typeName path fields = fields

namespace Prepared
variable {table fields : Fields} {typeName : String} {path : Path} {new : List Json}

/-- A node that is prepared already: its reference is written out, nothing is left to drop and an
object is closed. -/
theorem node_eq_self
    (halias : ∀ reference, Reference.ofFields? fields = some reference →
      Fields.get? fields "tsType" = some (.str (target typeName path reference)))
    (hdropped : ∀ key ∈ dropped, Fields.get? fields key = none)
    (hclosed : Fields.value fields "type" = .str "object" →
      Fields.get? fields "additionalProperties" = some (.bool false)) :
    node typeName path fields = fields := by
  have hwith : withAlias typeName path fields = fields := by
    unfold withAlias
    split
    · rename_i reference hreference
      exact Fields.set_of_get? (halias reference hreference)
    · rfl
  rw [node, hwith, Fields.eraseAll_of_get?_none hdropped, closed]
  split
  · rename_i hobject
    exact Fields.set_of_get? (hclosed hobject)
  · rfl

/-- A title is dropped; the reference that is left, if any, was the one to be written out. -/
theorem ofFields?_node (h : OneReference fields) {reference : String}
    (hreference : Reference.ofFields? (node typeName path fields) = some reference) :
    Reference.ofFields? fields = some reference := by
  have htitle : Fields.value (node typeName path fields) "title" = .null := by
    rw [Fields.value, get?_node_dropped _ _ _ (by decide)]
    rfl
  have hdescription := Fields.value_congr (get?_node_other typeName path fields
    (l := "description") (by decide))
  rw [Reference.ofFields?, htitle, hdescription] at hreference
  by_cases hnull : Fields.value fields "title" = .null
  · rw [Reference.ofFields?, hnull]
    exact hreference
  · rw [h hnull] at hreference
    cases hreference

theorem stable_withChildren (h : Plain table fields)
    (hk : List.Forall₂ Kept (childValues (node typeName path fields)) new) :
    Stable table typeName path (withChildren (node typeName path fields) new) where
  normal := by
    refine Normal.normalNode_withChildren (normalNode_congr (fun key hkey => ?_) h.normal) hk
    refine get?_node_other typeName path fields ?_
    revert key
    decide
  mapping := by
    refine Normal.properties_withChildren_not_arr ?_
    rw [Fields.value_congr (get?_node_other typeName path fields (by decide))]
    exact h.mapping
  prepared := by
    have hother : ∀ l : Key, (∀ key ∈ childKeys, key.canon ≠ l.canon) →
        Fields.get? (withChildren (node typeName path fields) new) l =
          Fields.get? (node typeName path fields) l :=
      fun l hl => get?_withChildren_other _ new hl
    have hsame : Reference.ofFields? (withChildren (node typeName path fields) new) =
        Reference.ofFields? (node typeName path fields) := by
      rw [Reference.ofFields?, Reference.ofFields?,
        Fields.value_congr (hother "title" (by decide)),
        Fields.value_congr (hother "description" (by decide))]
    refine node_eq_self (fun reference hreference => ?_) (fun key hkey => ?_) fun hobject => ?_
    · rw [hsame] at hreference
      rw [hother _ (by decide), get?_node_tsType, ofFields?_node h.reference hreference]
    · rw [hother key (by revert key; decide), get?_node_dropped _ _ _ hkey]
    · rw [Fields.value_congr (hother "type" (by decide)),
        Fields.value_congr (get?_node_other typeName path fields (by decide))] at hobject
      rw [hother _ (by decide), get?_node_additional, if_pos hobject]

theorem foldNode_of_plain (h : Plain table fields) : foldNode fields = .ok fields :=
  foldNode_of_not_arr h.mapping

theorem visit_eq (typeName : String) (path : Path) (fields : Fields) :
    (visitor typeName).visit path fields = node typeName path fields := rfl

/-- Below a plain node the visitor finds what stood there. -/
theorem atEach_child (h : AtEach (fun _ => Plain table) path (.obj fields)) {found : Fields}
    (hfold : foldNode fields = .ok found) {child : Path × Json}
    (hchild : child ∈ children path ((visitor typeName).visit path found)) :
    child ∈ children path fields ∧ AtEach (fun _ => Plain table) child.1 child.2 := by
  obtain rfl : fields = found := Except.ok.inj ((foldNode_of_plain h.root).symm.trans hfold)
  rw [visit_eq, (children_node typeName path fields).1] at hchild
  exact ⟨hchild, h.child hchild⟩

/-- A walk over plain nodes leaves stable ones. -/
theorem atEach_stable_of_walk {levels : Nat} {schema result : Json} {visits : List Visit}
    (hdepth : schema.depth ≤ levels) (hplain : AtEach (fun _ => Plain table) path schema)
    (h : Schema.walk (visitor typeName) levels path schema = .ok (result, visits)) :
    AtEach (Stable table typeName) path result := by
  refine (walk_made (fun path x => AtEach (fun _ => Plain table) path x)
    (fun path y _ => AtEach (Stable table typeName) path y) ?_ ?_ ?_ hdepth hplain h).2
  · exact fun path x hno _ => atEach_of_not_node hno
  · intro path fields found hplain hfold child hchild
    obtain ⟨hmem, hbelow⟩ := atEach_child hplain hfold hchild
    refine ⟨depth_of_mem_childValues ?_, hbelow⟩
    rw [← children_map_snd path]
    exact List.mem_map_of_mem hmem
  · intro path fields found results hplain hfold hkept hall
    obtain rfl : fields = found := Except.ok.inj ((foldNode_of_plain hplain.root).symm.trans hfold)
    refine atEach_withChildren hkept (stable_withChildren hplain.root hkept) ?_
    rwa [List.forall₂_map_right_iff]

/-- Plain nodes have nothing to fold, so preparing them never fails. -/
theorem walk_of_plain {schema : Json} (hplain : AtEach (fun _ => Plain table) path schema)
    {levels : Nat} (hdepth : schema.depth ≤ levels) :
    ∃ result visits, Schema.walk (visitor typeName) levels path schema = .ok (result, visits) := by
  refine walk_total (orderly_prepared typeName).shallow hdepth fun further node hcomes => ?_
  have hnode := Comes.induction (fun path x => AtEach (fun _ => Plain table) path x)
    (fun path fields found hplain hfold child hchild => (atEach_child hplain hfold hchild).2)
    hcomes hplain
  exact fun entries hentries => absurd hentries (hnode.root.mapping entries)
end Prepared

/-! Stable trees. -/

section
variable {table : Fields} {typeName : String} {schema : Json}
  (h : AtEach (Stable table typeName) [] schema)
include h

theorem normalize_of_stable : Normal.normalize table schema = .ok schema :=
  Normal.normalize_eq_ok.2 (walk_of_atEach (fun _ _ hs => Normal.node_of_normal hs.normal)
    (fun _ _ hs => hs.mapping) _ h)

theorem prepare_of_stable (hdescription : Prepared.withoutDescription schema = schema) :
    Prepared.prepare typeName schema = .ok schema := by
  have hvisit : ∀ path fields, Stable table typeName path fields →
      (Prepared.visitor typeName).visit path fields = fields := fun _ _ hs => hs.prepared
  obtain ⟨visits, hwalk⟩ := walk_of_atEach hvisit (fun _ _ hs => hs.mapping) (schema.depth + 0) h
  rw [Prepared.prepare, Prepared.prepareWithVisits, hdescription, Inversion.map_eq_ok]
  exact ⟨(schema, visits), hwalk, rfl⟩

theorem runPasses_of_stable (hdescription : Prepared.withoutDescription schema = schema)
    (passes : List Pass) : runPasses table typeName passes schema = .ok schema := by
  induction passes with
  | nil => rfl
  | cons pass passes ih =>
    have hpass : pass.run table typeName schema = .ok schema := by
      cases pass with
      | normalize => exact normalize_of_stable h
      | prepare => exact prepare_of_stable h hdescription
    rw [runPasses, List.foldlM_cons, hpass]
    exact ih
end

/-- The root of a prepared schema has no description. -/
theorem withoutDescription_of_prepare {typeName : String} {schema prepared : Json}
    (h : Prepared.prepare typeName schema = .ok prepared) :
    Prepared.withoutDescription prepared = prepared := by
  by_cases hno : ∀ fields, schema ≠ .obj fields
  · rw [Prepared.prepare_of_not_node typeName hno] at h
    rw [← Except.ok.inj h, Prepared.withoutDescription_of_not_node hno]
  · push Not at hno
    obtain ⟨fields, rfl⟩ := hno
    obtain ⟨result, rfl, hbecomes⟩ := Prepared.becomes_of_prepare h
    have hnone : Fields.get? result "description" = none := by
      rw [hbecomes.other "description" (by decide) (by decide), Fields.get?_erase_same fields rfl]
    exact congrArg Json.obj (Fields.erase_of_get?_none hnone)

/-- A schema that was normalized and then prepared is left as it is by every further pass, in
whatever order the passes come. The table has to lead to names it leaves alone, no items may start
with a list, and below the root no node may have a title and a reference in its description. -/
theorem prepared_stable {custom : List (String × String)} {table : Fields}
    (htable : TypeNames.tableOf? (.obj (Normal.named custom)) = some table)
    (hfixed : ∀ entry ∈ table, TypeNames.canonical table entry.2 = entry.2) (typeName : String)
    {schema normal : Json} (hsimple : Normal.SimpleTree schema)
    (hreference : OneReferenceBelow schema) (hnormal : Normal.normalize table schema = .ok normal) :
    ∃ prepared, Prepared.prepare typeName normal = .ok prepared ∧
      ∀ passes, runPasses table typeName passes prepared = .ok prepared := by
  have hnames : Normal.NameTable table := by
    rw [Normal.tableOf?_obj] at htable
    rw [← Option.some.inj htable]
    exact Normal.nameTable_table custom
  have hplain := atEach_plain_of_normalize ⟨hfixed, hnames.named⟩ hsimple hreference hnormal
  obtain ⟨prepared, visits, hwalk⟩ : ∃ prepared visits, walk (Prepared.visitor typeName)
      ((Prepared.withoutDescription normal).depth + 0) [] (Prepared.withoutDescription normal) =
        .ok (prepared, visits) := Prepared.walk_of_plain hplain (Nat.le_refl _)
  have hprepare : Prepared.prepare typeName normal = .ok prepared :=
    Inversion.map_eq_ok.2 ⟨(prepared, visits), hwalk, rfl⟩
  exact ⟨prepared, hprepare, runPasses_of_stable
    (Prepared.atEach_stable_of_walk (Nat.le_refl _) hplain hwalk)
    (withoutDescription_of_prepare hprepare)⟩

/-- A root with two references, names with blanks, a type to be translated and a reference below. -/
def twicePassed : Fields :=
  [("title", .str "&a"), ("description", .str "&b"), ("required", .arr [.str "a "]),
    ("properties", .arr [
      .obj [("name", .str " a "), ("type", .str "Text"), ("description", .str "&../b")],
      .obj [("name", .str "b"), ("title", .str "B"), ("type", .str "object")]])]

theorem prepared_stable_twicePassed :
    ∃ table normal, TypeNames.tableOf? (.obj (Normal.named [("text", "string")])) = some table ∧
      (∀ entry ∈ table, TypeNames.canonical table entry.2 = entry.2) ∧
      Normal.SimpleTree (.obj twicePassed) ∧ OneReferenceBelow (.obj twicePassed) ∧
      Normal.normalize table (.obj twicePassed) = .ok normal ∧
      ∃ prepared, Prepared.prepare "T" normal = .ok prepared ∧
        ∀ passes, runPasses table "T" passes prepared = .ok prepared := by
  have htable := Normal.tableOf?_obj (Normal.named [("text", "string")])
  generalize htables : TypeNames.table (Normal.named [("text", "string")]) = table at htable
  have hfixed : ∀ entry ∈ table, TypeNames.canonical table entry.2 = entry.2 := by
    subst htables
    decide +kernel
  have hsimple : Normal.SimpleTree (.obj twicePassed) := by
    have hcheck : checkNodes (fun fields => decide (Fields.value fields "items" = .null)) 3
        (.obj twicePassed) = true := by decide +kernel
    intro fields hreaches xs rest hitems
    have hnull := ((everywhere_of_checkNodes hcheck).reaches hreaches).root
    rw [hitems] at hnull
    cases hnull
  have hreference : OneReferenceBelow (.obj twicePassed) := by
    have hcheck : (beneath twicePassed).all
        (checkNodes (fun fields => decide (OneReference fields)) 2) = true := by decide +kernel
    rintro root child node ⟨⟩ hchild hreaches
    have hbelow := List.all_eq_true.1 hcheck child (Under.child hchild).mem_beneath
    exact ((everywhere_of_checkNodes hbelow).reaches hreaches).root
  have hok : ∃ normal, Normal.normalize table (.obj twicePassed) = .ok normal := by
    have hcheck : (Normal.normalize table (.obj twicePassed)).toOption.isSome = true := by
      subst htables
      decide +kernel
    cases hrun : Normal.normalize table (.obj twicePassed) with
    | ok normal => exact ⟨normal, rfl⟩
    | error fault =>
      rw [hrun] at hcheck
      cases hcheck
  obtain ⟨normal, hnormal⟩ := hok
  exact ⟨table, normal, htable, hfixed, hsimple, hreference, hnormal,
    prepared_stable htable hfixed "T" hsimple hreference hnormal⟩

end SchemaDecl.Schema
