import SchemaDecl.Proofs.Schema.ChildShapes
import SchemaDecl.Proofs.Schema.Origins

/-! The prepared tree, node by node. A walk over a tree without lists of properties
whose visitor leaves the children alone returns the same tree of nodes: the same
addresses in the same order, and at each of them what the visitor made of the node
that stood there. Preparing is such a walk over every normalized schema, so all it
changes on a node is what its reference, its type and the dropped keywords say. -/

namespace SchemaDecl.Schema

/-- No node has a list of properties, so nothing is folded. -/
def Unlisted (schema : Json) : Prop :=
  ∀ address node, At schema address node → ∀ entries, Fields.value node "properties" ≠ .arr entries

theorem Unlisted.root {fields : Fields} (h : Unlisted (.obj fields)) (entries : List Json) :
    Fields.value fields "properties" ≠ .arr entries := h [] fields .here entries

theorem Unlisted.child {fields : Fields} (h : Unlisted (.obj fields)) {child : Step × Json}
    (hchild : child ∈ steps fields) : Unlisted child.2 :=
  fun address node hat => h (child.1 :: address) node (.through hchild hat)

/-- The visitor changes no children. -/
def Visitor.Frugal (visitor : Visitor) : Prop :=
  ∀ path fields, steps (visitor.visit path fields) = steps fields

section
variable {visitor : Visitor} (hv : visitor.Frugal)
include hv

theorem Visitor.Frugal.children (path : Path) (fields : Fields) :
    Schema.children path (visitor.visit path fields) = Schema.children path fields := by
  rw [children_eq_steps, children_eq_steps, hv]

theorem Visitor.Frugal.shallow : visitor.Shallow := by
  intro path fields found hfold child hchild
  have hmem := List.mem_map_of_mem (f := Prod.snd) hchild
  rw [hv.children, children_map_snd] at hmem
  exact (child_of_mem_found hfold hmem).depth_le

theorem foldable_of_unlisted {path further : Path} {schema : Json} {node : Fields}
    (h : Unlisted schema) (hcomes : Comes visitor path schema further node) : Foldable node := by
  have hnode : Unlisted (.obj node) := by
    refine Comes.induction (fun _ x => Unlisted x) ?_ hcomes h
    intro path fields found hgiven hfold child hchild
    rw [foldNode_of_not_arr hgiven.root] at hfold
    rw [hv.children, ← Except.ok.inj hfold, children_eq_steps] at hchild
    obtain ⟨step, hstep, rfl⟩ := List.mem_map.1 hchild
    exact hgiven.child hstep
  exact fun entries hentries => absurd hentries (hnode.root entries)

end

/-- What the nodes below the children correspond to corresponds to the nodes below their node. -/
theorem forall₂_nodes_below {R : Address → Fields → Fields → Prop} {taken : List (Step × Json)}
    {new : List Json}
    (h : List.Forall₂ (fun child x => List.Forall₂ (fun old made => old.1 = made.1 ∧
      R (child.1 :: old.1) old.2 made.2) (nodes child.2) (nodes x)) taken new) :
    List.Forall₂ (fun old made => old.1 = made.1 ∧ R old.1 old.2 made.2)
      (taken.flatMap fun child => (nodes child.2).map fun node => (child.1 :: node.1, node.2))
      (((taken.map Prod.fst).zip new).flatMap fun child =>
        (nodes child.2).map fun node => (child.1 :: node.1, node.2)) := by
  induction h with
  | nil => exact .nil
  | cons hfirst _ ih =>
    refine List.rel_append ?_ ih
    rw [List.forall₂_map_left_iff, List.forall₂_map_right_iff]
    exact hfirst.imp fun _ _ hmade => ⟨by rw [hmade.1], hmade.2⟩

theorem forall₂_nodes_of_walk {visitor : Visitor} (hv : visitor.Frugal) {levels : Nat} {path : Path}
    {schema result : Json} {visits : List Visit} (hdepth : schema.depth ≤ levels)
    (hun : Unlisted schema) (h : walk visitor levels path schema = .ok (result, visits)) :
    List.Forall₂ (fun old made => old.1 = made.1 ∧
      Walked visitor (path ++ old.1.path) old.2 old.2 made.2) (nodes schema) (nodes result) := by
  induction levels using Nat.strong_induction_on generalizing path schema result visits with
  | _ levels ih =>
    rcases walk_cases hdepth h with
      ⟨hno, rfl⟩ | ⟨below, fields, found, new, rfl, rfl, rfl, hfold, hkept, hall⟩
    · rw [nodes_of_not_node hno]
      exact .nil
    rw [Json.depth] at hdepth
    have hfound := hfold
    rw [foldNode_of_not_arr hun.root] at hfound
    obtain rfl := Except.ok.inj hfound
    rw [nodes_obj, nodes_obj, steps_withChildren hkept, hv]
    rw [hv] at hall
    refine .cons ⟨rfl, ?_⟩ (forall₂_nodes_below
      (R := fun address old made => Walked visitor (path ++ address.path) old old made) ?_)
    · rw [Address.path, List.flatMap_nil, List.append_nil]
      exact ⟨hfold, new, hkept, rfl⟩
    · refine List.forall₂_iff_zip.2 ⟨hall.length_eq, fun {child made} hzip => ?_⟩
      obtain ⟨visits, hwalk⟩ := List.forall₂_zip hall hzip
      have hchild := (List.of_mem_zip hzip).1
      have hle := depth_of_mem_childValues (mem_childValues_of_mem_steps hchild)
      have hbelow := ih below (Nat.lt_succ_self below) (Nat.le_trans hle (by omega))
        (hun.child hchild) hwalk
      refine hbelow.imp fun old made hmade => ⟨hmade.1, ?_⟩
      rw [Address.path_cons, ← List.append_assoc]
      exact hmade.2

theorem unlisted_of_normalize {table : Fields} {schema normal : Json}
    (h : Normal.normalize table schema = .ok normal) : Unlisted normal := by
  obtain ⟨visits, hwalk⟩ := Normal.normalize_eq_ok.1 h
  intro address node hat
  obtain ⟨_, found, _, hfold, new, _, rfl⟩ :=
    exists_origin (Normal.shallow_visitor table) (Nat.le_refl _) hwalk hat
  exact Normal.properties_withChildren_not_arr
    (Normal.properties_node_not_arr (properties_foldNode hfold).1)

namespace Prepared

/-! What becomes of a node. -/

/-- The node names another: by its title or, below the root and without a title, by its
description. -/
def Refers (address : Address) (fields : Fields) (reference : String) : Prop :=
  Fields.value fields "title" = .str ("&" ++ reference) ∨
    address ≠ [] ∧ Fields.value fields "title" = .null ∧
      Fields.value fields "description" = .str ("&" ++ reference)

/-- The keywords that preparing sets or drops, and those that hold children. -/
def encoded : List Key := touched ++ childKeys

/-- A prepared node, over the node that stood at its address. -/
structure Encoded (typeName : String) (address : Address) (old new : Fields) : Prop where
  dropped : ∀ key ∈ (["title", "id", "minItems", "maxItems", "default"] : List Key),
    Fields.get? new key = none
  aliased : ∀ reference, Refers address old reference → Fields.get? new "tsType" =
    some (.str (TypeScript.IndexedAccess.render
      ⟨typeName, Reference.resolve address.path reference⟩))
  unaliased : (∀ reference, ¬ Refers address old reference) →
    Fields.get? new "tsType" = Fields.get? old "tsType"
  closed : Fields.value old "type" = .str "object" →
    Fields.get? new "additionalProperties" = some (.bool false)
  unclosed : Fields.value old "type" ≠ .str "object" →
    Fields.get? new "additionalProperties" = Fields.get? old "additionalProperties"
  undescribed : address = [] → Fields.get? new "description" = none
  properties : Option.Rel (SameKeys Kept) (Fields.get? old "properties")
    (Fields.get? new "properties")
  items : Option.Rel (OneOrList Kept) (Fields.get? old "items") (Fields.get? new "items")
  members : ∀ key ∈ combinators,
    Option.Rel (Entrywise Kept) (Fields.get? old key) (Fields.get? new key)
  unchanged : ∀ l ∉ encoded, (address = [] → l ≠ "description") →
    Fields.get? new l = Fields.get? old l

/-- The fields the visitor is given at an address: those of the node, at the root without its
description. -/
def given (address : Address) (fields : Fields) : Fields :=
  if address = [] then Fields.erase fields "description" else fields

theorem ofText?_eq_some {v : Json} {reference : String} :
    Reference.ofText? v = some reference ↔ v = .str ("&" ++ reference) := by
  constructor
  · intro h
    unfold Reference.ofText? at h
    split at h
    · rename_i s
      split at h
      · rename_i rest hs
        rw [← Option.some.inj h]
        refine congrArg Json.str (String.toList_inj.1 ?_)
        simp [hs]
      · cases h
    · cases h
  · rintro rfl
    simp [Reference.ofText?]

section
variable {address : Address} {old : Fields}

theorem get?_given_other {l : Key} (h : address = [] → (Key.str "description").canon ≠ l.canon) :
    Fields.get? (given address old) l = Fields.get? old l := by
  unfold given
  split
  · rename_i hroot
    exact Fields.get?_erase_other old (h hroot)
  · rfl

theorem ofFields?_given {reference : String} :
    Reference.ofFields? (given address old) = some reference ↔ Refers address old reference := by
  have htitle : Fields.value (given address old) "title" = Fields.value old "title" :=
    Fields.value_congr (get?_given_other fun _ => by decide)
  have hdescription : Fields.value (given address old) "description" =
      if address = [] then .null else Fields.value old "description" := by
    unfold given
    split
    · rw [Fields.value, Fields.get?_erase_same old rfl]
      rfl
    · rfl
  unfold Reference.ofFields? Refers
  rw [htitle, hdescription]
  cases hv : Fields.value old "title" with
  | null =>
    by_cases hroot : address = []
    · simp [hroot, ofText?_eq_some]
    · simp [hroot, ofText?_eq_some]
  | _ => simp [ofText?_eq_some]

theorem get?_given_child {key : Key} (hkey : key ∈ childKeys) :
    Fields.get? (given address old) key = Fields.get? old key := by
  refine get?_given_other fun _ => ?_
  revert key
  decide

variable {typeName : String} {new : Fields}
  (h : Walked (visitor typeName) address.path (given address old) (given address old) new)
include h

theorem get?_of_walked {l : Key} (hl : ∀ key ∈ childKeys, key.canon ≠ l.canon) :
    Fields.get? new l = Fields.get? (node typeName address.path (given address old)) l := by
  obtain ⟨made, _, rfl⟩ := h.written
  exact get?_withChildren_other _ _ hl

/-- A node a walk has made is the prepared form of the one that stood there. -/
theorem encoded_of_walked : Encoded typeName address old new where
  dropped key hkey := by
    have hchild : ∀ l ∈ childKeys, l.canon ≠ key.canon := by
      revert key
      decide
    rw [get?_of_walked h hchild]
    exact get?_node_dropped _ _ _ hkey
  aliased reference hrefers := by
    rw [get?_of_walked h (by decide), get?_node_tsType, ofFields?_given.2 hrefers]
    rfl
  unaliased hno := by
    have hnone : Reference.ofFields? (given address old) = none :=
      Option.eq_none_iff_forall_ne_some.2 fun reference hsome =>
        hno reference (ofFields?_given.1 hsome)
    rw [get?_of_walked h (by decide), get?_node_tsType, hnone]
    exact get?_given_other fun _ => by decide
  closed hobject := by
    rw [← Fields.value_congr (get?_given_other fun _ => by decide)] at hobject
    rw [get?_of_walked h (by decide), get?_node_additional, if_pos hobject]
  unclosed hother := by
    rw [← Fields.value_congr (get?_given_other fun _ => by decide)] at hother
    rw [get?_of_walked h (by decide), get?_node_additional, if_neg hother]
    exact get?_given_other fun _ => by decide
  undescribed hroot := by
    rw [get?_of_walked h (by decide), get?_node_other _ _ _ (by decide), given, if_pos hroot]
    exact Fields.get?_erase_same old rfl
  properties := by
    obtain ⟨made, hkept, rfl⟩ := id h.written
    rw [← get?_given_child (by decide), ← get?_node_child typeName address.path _ (by decide)]
    exact rel_properties_withChildren hkept
  items := by
    obtain ⟨made, hkept, rfl⟩ := id h.written
    rw [← get?_given_child (by decide), ← get?_node_child typeName address.path _ (by decide)]
    exact rel_items_withChildren hkept
  members key hkey := by
    obtain ⟨made, hkept, rfl⟩ := id h.written
    have hchild : key ∈ childKeys := by simp [childKeys, hkey]
    rw [← get?_given_child hchild, ← get?_node_child typeName address.path _ hchild]
    exact rel_members_withChildren hkept hkey
  unchanged l hl hdescription := by
    have hne := canon_ne_of_not_mem (by decide) hl
    rw [get?_of_walked h fun key hkey => hne key (List.mem_append_right _ hkey),
      get?_node_other _ _ _ fun key hkey => hne key (List.mem_append_left _ hkey),
      get?_given_other fun hroot heq => hdescription hroot (eq_str_of_canon heq.symm)]
end

/-! The whole tree. -/

theorem frugal_visitor (typeName : String) : (visitor typeName).Frugal :=
  fun path fields => steps_congr fun _ hkey => get?_node_child typeName path fields hkey

theorem nodes_withoutDescription (schema : Json) :
    nodes (withoutDescription schema) =
      (nodes schema).map fun node => (node.1, given node.1 node.2) := by
  by_cases hno : ∀ fields, schema ≠ .obj fields
  · rw [withoutDescription_of_not_node hno, nodes_of_not_node hno]
    rfl
  push Not at hno
  obtain ⟨fields, rfl⟩ := hno
  have hsteps : steps (Fields.erase fields "description") = steps fields :=
    steps_congr fun _ hkey => get?_child_erase_description fields hkey
  rw [withoutDescription, nodes_obj, nodes_obj, List.map_cons, hsteps, List.map_flatMap]
  refine congrArg _ (List.flatMap_congr fun child _ => ?_)
  rw [List.map_map]
  -- below the root the fields are given as they are
  rfl

theorem kept_of_withoutDescription {schema prepared : Json}
    (h : Kept (withoutDescription schema) prepared) : Kept schema prepared := by
  cases schema with
  | obj fields =>
    rcases h with rfl | ⟨_, inner, _, rfl⟩
    · exact .inr ⟨fields, _, rfl, rfl⟩
    · exact .inr ⟨fields, inner, rfl, rfl⟩
  | _ => exact h

/-- A tree without lists of properties is prepared node by node. -/
theorem prepare_of_unlisted (typeName : String) {schema : Json} (h : Unlisted schema) :
    ∃ prepared, prepare typeName schema = .ok prepared ∧ Kept schema prepared ∧
      List.Forall₂ (fun old new => old.1 = new.1 ∧ Encoded typeName old.1 old.2 new.2)
        (nodes schema) (nodes prepared) := by
  have hv := frugal_visitor typeName
  have hun : Unlisted (withoutDescription schema) := by
    intro address node hat entries
    rw [← mem_nodes, nodes_withoutDescription] at hat
    obtain ⟨⟨_, old⟩, hold, heq⟩ := List.mem_map.1 hat
    obtain ⟨rfl, rfl⟩ := Prod.mk.inj heq
    rw [Fields.value_congr (get?_given_child (by decide))]
    exact h _ _ (mem_nodes.1 hold) entries
  have hfoldable : ∀ path node, Comes (visitor typeName) [] (withoutDescription schema) path node →
      Foldable node := fun _ _ hcomes => foldable_of_unlisted hv hun hcomes
  obtain ⟨prepared, visits, hwalk⟩ := walk_total hv.shallow (Nat.le_refl _) hfoldable
  refine ⟨prepared, Inversion.map_eq_ok.2 ⟨(prepared, visits), hwalk, rfl⟩,
    kept_of_withoutDescription (kept_of_walk hwalk), ?_⟩
  have hall := forall₂_nodes_of_walk hv (Nat.le_refl _) hun hwalk
  rw [nodes_withoutDescription, List.forall₂_map_left_iff] at hall
  exact hall.imp fun old new hnew => ⟨hnew.1, encoded_of_walked hnew.2⟩

/-- A normalized schema is prepared into a tree with the same nodes in the same order, each of them
the prepared form of the one at its address. -/
theorem prepared_nodes_encoded {table : Fields} {schema normal : Json}
    (h : Normal.normalize table schema = .ok normal) (typeName : String) :
    ∃ prepared, prepare typeName normal = .ok prepared ∧ Kept normal prepared ∧
      List.Forall₂ (fun old new => old.1 = new.1 ∧ Encoded typeName old.1 old.2 new.2)
        (nodes normal) (nodes prepared) :=
  prepare_of_unlisted typeName (unlisted_of_normalize h)

/-- A root with both texts, a property called `title`, references by title and by description, one
of them in a member of a combinator, and what looks like a node where no walk goes. -/
def signposted : Json :=
  .obj [("title", .str "&title"), ("description", .str "&x"), ("id", .int 1),
    ("properties", .obj [
      ("title", .obj [("type", .str "object"), ("description", .str "&../x"), ("default", .null),
        ("enum", .arr [.obj [("title", .str "&x")]])]),
      ("x", .obj [("oneOf", .arr [.obj [("title", .str "&../title"), ("minItems", .int 1)], .null]),
        ("additionalProperties", .obj [("title", .str "&x")])])])]

theorem prepared_nodes_encoded_signposted :
    ∃ normal, Normal.normalize TypeNames.builtin signposted = .ok normal ∧
      ∃ prepared, prepare "T" normal = .ok prepared ∧ Kept normal prepared ∧
        List.Forall₂ (fun old new => old.1 = new.1 ∧ Encoded "T" old.1 old.2 new.2)
          (nodes normal) (nodes prepared) := by
  have hok : (Normal.normalize TypeNames.builtin signposted).toOption.isSome = true := by
    decide +kernel
  obtain ⟨normal, hnormal⟩ := Inversion.exists_ok_of_isSome hok
  exact ⟨normal, hnormal, prepared_nodes_encoded hnormal "T"⟩

end Prepared

end SchemaDecl.Schema
