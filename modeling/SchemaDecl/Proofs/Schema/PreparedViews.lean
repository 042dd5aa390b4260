import SchemaDecl.Proofs.Schema.Likeness

/-! Prepared schemas that are read in the same way. Before the preparation a reference
settles what the type of a node is, and so does any keyword that decides alone;
afterwards both do it by such a keyword. The nodes that are left are read by their
structure, and the preparation leaves alone all that shows it. It never comes to the
schema of additional properties, where references are not found, and it comes to
properties also when they are listed. -/

namespace SchemaDecl.Schema.Prepared

open TypeScript

/-- Whether the structure of the node will not count when it has been prepared. -/
def settled (fields : Fields) : Bool :=
  decidesAlone fields || (Reference.ofFields? fields).isSome

theorem settled_congr {fs gs : Fields}
    (h : ∀ key ∈ ("title" : Key) :: "description" :: decidingKeys,
      Fields.get? fs key = Fields.get? gs key) : settled fs = settled gs := by
  have hdeciding : ∀ key ∈ decidingKeys, Fields.get? fs key = Fields.get? gs key :=
    fun key hkey => h key (List.mem_cons_of_mem _ (List.mem_cons_of_mem _ hkey))
  rw [settled, settled, decidesAlone_congr hdeciding, Reference.ofFields?, Reference.ofFields?,
    Fields.value_congr (h "title" (by simp)), Fields.value_congr (h "description" (by simp))]

/-- The nodes a walk comes to below a node, before its properties are folded. -/
def walkedBelow (fields : Fields) : List Json :=
  entriesUnder fields "properties" ++ childValues fields

theorem depth_of_mem_walkedBelow {fields : Fields} {x : Json} (h : x ∈ walkedBelow fields) :
    x.depth ≤ Json.depthFields fields := by
  rcases List.mem_append.1 h with hlisted | hchild
  · have hmember : x ∈ members fields "properties" := hlisted
    exact depth_of_mem_members hmember
  · exact depth_of_mem_childValues hchild

/-- Schemas whose nodes will be read in the same way, each at its place, when they are prepared. -/
inductive Foreseen : Json → Json → Prop
  | leaf {x y : Json} : (∀ fields, x ≠ .obj fields) → (∀ fields, y ≠ .obj fields) → Foreseen x y
  | node {fs gs : Fields} : SameView settled fs gs →
      List.Forall₂ Seen (objectUnder fs "additionalProperties")
        (objectUnder gs "additionalProperties") →
      List.Forall₂ Foreseen (walkedBelow fs) (walkedBelow gs) → Foreseen (.obj fs) (.obj gs)

variable {fs gs : Fields}

theorem length_listed {decided : Fields → Bool} (h : SameView decided fs gs) :
    (entriesUnder fs "properties").length = (entriesUnder gs "properties").length := by
  have hlisting := h.properties
  unfold entriesUnder
  generalize Fields.value fs "properties" = v at hlisting ⊢
  generalize Fields.value gs "properties" = w at hlisting ⊢
  cases v <;> cases w <;> first | rfl | cases hlisting | skip
  simpa using congrArg List.length (Json.arr.inj hlisting)

/-! Folding. -/

/-- The same keys in the same order, with values that will be read in the same way. -/
def SameNamed (ps qs : Fields) : Prop :=
  List.Forall₂ (fun p q => p.1 = q.1 ∧ Foreseen p.2 q.2) ps qs

theorem SameNamed.set {ps qs : Fields} (h : SameNamed ps qs) (key : Key) {x y : Json}
    (hxy : Foreseen x y) : SameNamed (Fields.set ps key x) (Fields.set qs key y) := by
  induction h with
  | nil => exact .cons ⟨rfl, hxy⟩ .nil
  | @cons p q ps qs hpq hrest ih =>
    obtain ⟨k, v⟩ := p
    obtain ⟨l, w⟩ := q
    obtain ⟨rfl, hvw⟩ := hpq
    simp only [Fields.set]
    split
    · exact .cons ⟨rfl, hxy⟩ hrest
    · exact .cons ⟨rfl, hvw⟩ ih

theorem SameNamed.map_fst {ps qs : Fields} (h : SameNamed ps qs) :
    ps.map Prod.fst = qs.map Prod.fst := by
  rw [← List.forall₂_eq_eq_eq, List.forall₂_map_left_iff, List.forall₂_map_right_iff]
  exact h.imp fun _ _ hpq => hpq.1

theorem SameNamed.map_snd {ps qs : Fields} (h : SameNamed ps qs) :
    List.Forall₂ Foreseen (ps.map Prod.snd) (qs.map Prod.snd) := by
  rw [List.forall₂_map_left_iff, List.forall₂_map_right_iff]
  exact h.imp fun _ _ hpq => hpq.2

theorem sameNamed_foldEntry {ps qs : Fields} {x y : Json} (h : SameNamed ps qs)
    (hxy : Foreseen x y) (hname : namedOutline x = namedOutline y) :
    SameEnd SameNamed (foldEntry ps x) (foldEntry qs y) := by
  cases hxy with
  | leaf hno hno' =>
    have hpass : ∀ (folded : Fields) {z : Json}, (∀ fields, z ≠ .obj fields) →
        foldEntry folded z = .ok folded := by
      intro folded z hz
      cases z with
      | obj fields => exact absurd rfl (hz fields)
      | _ => rfl
    rw [hpass ps hno, hpass qs hno']
    exact sameEnd_ok h
  | @node fs gs hview hadditional hbelow =>
    have hvalue : Fields.value fs "name" = Fields.value gs "name" := by
      simpa [namedOutline] using hname
    simp only [foldEntry, hvalue]
    split
    · exact sameEnd_ok (h.set _ (.node hview hadditional hbelow))
    · exact .inl ⟨_, rfl, rfl⟩

theorem sameNamed_foldEntries {xs ys : List Json} (h : List.Forall₂ Foreseen xs ys)
    (hnames : xs.map namedOutline = ys.map namedOutline) :
    SameEnd SameNamed (foldEntries xs) (foldEntries ys) := by
  have hfrom : ∀ {ps qs : Fields}, SameNamed ps qs →
      SameEnd SameNamed (xs.foldlM foldEntry ps) (ys.foldlM foldEntry qs) := by
    induction h with
    | nil => exact fun hpq => sameEnd_ok hpq
    | cons hfirst _ ih =>
      intro ps qs hpq
      rw [List.map_cons, List.map_cons, List.cons.injEq] at hnames
      rw [List.foldlM_cons, List.foldlM_cons]
      exact (sameNamed_foldEntry hpq hfirst hnames.1).bind fun _ _ hnext => ih hnames.2 hnext
  rw [foldEntries_eq, foldEntries_eq]
  exact hfrom .nil

/-- A node after folding, as the walk goes on from it. -/
structure Folded (fs gs : Fields) : Prop where
  view : SameView settled fs gs
  additional : List.Forall₂ Seen (objectUnder fs "additionalProperties")
    (objectUnder gs "additionalProperties")
  children : List.Forall₂ Foreseen (childValues fs) (childValues gs)

/-- Nodes that will be read in the same way are folded to such nodes, or neither can be folded. -/
theorem folded_foldNode (hview : SameView settled fs gs)
    (hadditional : List.Forall₂ Seen (objectUnder fs "additionalProperties")
      (objectUnder gs "additionalProperties"))
    (hbelow : List.Forall₂ Foreseen (walkedBelow fs) (walkedBelow gs)) :
    SameEnd Folded (foldNode fs) (foldNode gs) := by
  have hlisting := hview.properties
  obtain ⟨hlisted, hchildren⟩ := (forall₂_append_iff (length_listed hview)).1 hbelow
  by_cases hlist : ∃ entries, Fields.value fs "properties" = .arr entries
  · obtain ⟨xs, hfs⟩ := hlist
    obtain ⟨ys, hgs⟩ : ∃ ys, Fields.value gs "properties" = .arr ys := by
      rw [hfs] at hlisting
      cases hvalue : Fields.value gs "properties" with
      | arr ys => exact ⟨ys, rfl⟩
      | _ =>
        rw [hvalue] at hlisting
        cases hlisting
    rw [hfs, hgs] at hlisting
    rw [entriesUnder, entriesUnder, hfs, hgs] at hlisted
    simp only [foldNode, hfs, hgs]
    refine (sameNamed_foldEntries hlisted (Json.arr.inj hlisting)).bind fun ps qs hpq => ?_
    refine sameEnd_ok ⟨hview.set_properties hpq.map_fst, ?_, ?_⟩
    · rw [objectUnder_congr (get?_set_properties fs _ (by decide)),
        objectUnder_congr (get?_set_properties gs _ (by decide))]
      exact hadditional
    · have hothers : ∀ {fields : Fields} {entries : List Json},
          Fields.value fields "properties" = .arr entries →
            childValues fields = otherValues fields := by
        intro fields entries hentries
        rw [childValues_eq, properties, hentries]
        rfl
      rw [hothers hfs, hothers hgs] at hchildren
      rw [childValues_set_properties, childValues_set_properties]
      exact List.rel_append hpq.map_snd hchildren
  · have hfs : ∀ entries, Fields.value fs "properties" ≠ .arr entries :=
      fun entries hentries => hlist ⟨entries, hentries⟩
    have hgs : ∀ entries, Fields.value gs "properties" ≠ .arr entries := by
      intro entries hentries
      rw [hentries] at hlisting
      cases hvalue : Fields.value fs "properties" with
      | arr xs => exact hfs xs hvalue
      | _ =>
        rw [hvalue] at hlisting
        cases hlisting
    rw [foldNode_of_not_arr hfs, foldNode_of_not_arr hgs]
    exact sameEnd_ok ⟨hview, hadditional, hchildren⟩

/-! Nodes. -/

theorem ofFields?_eq {decided : Fields → Bool} (h : SameView decided fs gs) :
    Reference.ofFields? fs = Reference.ofFields? gs := by
  rw [Reference.ofFields?, Reference.ofFields?, h.values "title" (by decide),
    h.values "description" (by decide)]

/-- A node that nothing decides after the preparation was not settled before. -/
theorem settled_of_node (typeName : String) (path : Path) {fields : Fields}
    (h : decidesAlone (node typeName path fields) = false) : settled fields = false := by
  have hother : ∀ key ∈ ([("const" : Key), "enum", "__is_any__"] : List Key),
      Fields.get? (node typeName path fields) key = Fields.get? fields key := fun key hkey =>
    get?_node_other typeName path fields (by revert key; decide)
  simp only [decidesAlone, Fields.value, Fields.contains, List.any_cons, List.any_nil,
    hother "const" (by simp), hother "enum" (by simp), hother "__is_any__" (by simp),
    get?_node_tsType] at h
  cases hreference : Reference.ofFields? fields with
  | none =>
    rw [hreference] at h
    simpa [settled, hreference, decidesAlone, Fields.value, Fields.contains] using h
  | some reference =>
    rw [hreference] at h
    simp at h

theorem sameView_node (h : SameView settled fs gs) (typeName : String) (path : Path) :
    SameView decidesAlone (node typeName path fs) (node typeName path gs) where
  values key hkey := by
    by_cases hdropped : key ∈ dropped
    · rw [Fields.value, Fields.value, get?_node_dropped _ _ _ hdropped,
        get?_node_dropped _ _ _ hdropped]
    · have hother : ∀ k ∈ touched, k.canon ≠ key.canon := by
        revert key
        decide
      rw [Fields.value_congr (get?_node_other typeName path fs hother), h.values key hkey,
        Fields.value_congr (get?_node_other typeName path gs hother)]
  deciding key hkey := by
    by_cases htype : key = "tsType"
    · rw [htype, get?_node_tsType, get?_node_tsType, ofFields?_eq h, h.deciding _ (by decide)]
    · have hother : ∀ k ∈ touched, k.canon ≠ key.canon := by
        revert key
        decide
      rw [get?_node_other _ _ _ hother, get?_node_other _ _ _ hother, h.deciding key hkey]
  properties := by
    rw [Fields.value_congr (get?_node_other typeName path fs (by decide)), h.properties,
      Fields.value_congr (get?_node_other typeName path gs (by decide))]
  entries := by
    rw [Fields.value_congr (get?_node_other typeName path fs (by decide)), h.entries,
      Fields.value_congr (get?_node_other typeName path gs (by decide))]
  outlines key hkey := by
    by_cases hadditional : key = "additionalProperties"
    · rw [hadditional, get?_node_additional, get?_node_additional, h.values "type" (by decide)]
      split
      · rfl
      · exact h.outlines _ (by decide)
    · have hother : ∀ k ∈ touched, k.canon ≠ key.canon := by
        revert key
        decide
      rw [get?_node_other _ _ _ hother, get?_node_other _ _ _ hother, h.outlines key hkey]
  structured hopen := by
    have hsame : ∀ fields : Fields, hasStructure (node typeName path fields) = hasStructure fields ∧
        typeNames (node typeName path fields) = typeNames fields := by
      intro fields
      have hother : ∀ key ∈ ([("type" : Key), "properties", "items"] : List Key),
          Fields.get? (node typeName path fields) key = Fields.get? fields key := fun key hkey =>
        get?_node_other typeName path fields (by revert key; decide)
      have hcontains : ∀ key ∈ ([("type" : Key), "properties", "items"] : List Key),
          Fields.contains (node typeName path fields) key = Fields.contains fields key :=
        fun key hkey => by rw [Fields.contains, hother key hkey, Fields.contains]
      constructor
      · simp only [hasStructure, List.any_cons, List.any_nil, hcontains "type" (by simp),
          hcontains "properties" (by simp), hcontains "items" (by simp)]
      · rw [typeNames, typeNames, Fields.value_congr (hother "type" (by simp)),
          hcontains "properties" (by simp)]
    rw [(hsame fs).1, (hsame fs).2, (hsame gs).1, (hsame gs).2]
    exact h.structured (settled_of_node typeName path hopen)

theorem seen_objectUnder_node (hview : SameView settled fs gs)
    (hadditional : List.Forall₂ Seen (objectUnder fs "additionalProperties")
      (objectUnder gs "additionalProperties")) (typeName : String) (path : Path) :
    List.Forall₂ Seen (objectUnder (node typeName path fs) "additionalProperties")
      (objectUnder (node typeName path gs) "additionalProperties") := by
  have htype := hview.values "type" (by decide)
  by_cases hobject : Fields.value fs "type" = .str "object"
  · have hclosed : ∀ fields : Fields, Fields.value fields "type" = .str "object" →
        objectUnder (node typeName path fields) "additionalProperties" = [] := by
      intro fields hfields
      rw [objectUnder, Fields.value, get?_node_additional, if_pos hfields]
      rfl
    rw [hclosed fs hobject, hclosed gs (htype ▸ hobject)]
    exact .nil
  · have hopen : ∀ fields : Fields, Fields.value fields "type" ≠ .str "object" →
        objectUnder (node typeName path fields) "additionalProperties" =
          objectUnder fields "additionalProperties" := by
      intro fields hfields
      refine objectUnder_congr ?_
      rw [get?_node_additional, if_neg hfields]
    rw [hopen fs hobject, hopen gs (htype ▸ hobject)]
    exact hadditional

/-- Preparing makes of nodes that will be read in the same way nodes that are. -/
theorem paired_visitor (typeName : String) :
    Paired (visitor typeName) (fun _ => Foreseen) Seen where
  leaf _ x y h hno := by
    cases h with
    | leaf _ hno' => exact ⟨hno', .leaf hno hno'⟩
    | node => exact absurd rfl (hno _)
  node path fs y h := by
    cases h with
    | leaf hno _ => exact absurd rfl (hno _)
    | @node _ gs hview hadditional hbelow =>
      refine ⟨gs, rfl, ?_⟩
      rcases folded_foldNode hview hadditional hbelow with
        hfault | ⟨found, found', hfs, hgs, hfound⟩
      · exact .inl hfault
      · refine .inr ⟨found, found', hfs, hgs, ?_, fun new new' hnew hnew' hall => ?_⟩
        · show List.Forall₂ _ (children path (node typeName path found))
            (children path (node typeName path found'))
          rw [(children_node typeName path found).1, (children_node typeName path found').1]
          exact hfound.view.forall₂_children path hfound.children
        · exact seen_withChildren (sameView_node hfound.view typeName path)
            (seen_objectUnder_node hfound.view hfound.additional typeName path) hnew hnew' hall

/-! Roots. -/

/-- Schemas that will be read in the same way without the descriptions of their roots are prepared
to schemas that are, or they fail in the same way. -/
theorem seen_prepare {x y : Json} (h : Foreseen (withoutDescription x) (withoutDescription y))
    (typeName : String) :
    SameEnd (fun r r' => Seen r.1 r'.1) (prepareWithVisits typeName x)
      (prepareWithVisits typeName y) :=
  (paired_visitor typeName).walk (orderly_prepared typeName).shallow (Nat.le_refl _) (Nat.le_refl _)
    h

/-- Whether a node shows at once that it is an object. -/
def showsObject (fields : Fields) : Bool :=
  match Fields.get? fields "type" with
  | some type => type = .str "object"
  | none => Fields.contains fields "properties"

theorem showsObject_congr (htype : Fields.get? fs "type" = Fields.get? gs "type")
    (hproperties : Fields.contains fs "properties" = Fields.contains gs "properties") :
    showsObject fs = showsObject gs := by
  rw [showsObject, showsObject, htype, hproperties]

theorem isInterface_eq_of_view (h : SameView decidesAlone fs gs)
    (hshows : decidesAlone fs = false → showsObject fs = showsObject gs) :
    isInterface (.obj fs) = isInterface (.obj gs) := by
  have hsame : ∀ key ∈ decidingKeys ++ combinators,
      Fields.contains fs key = Fields.contains gs key := by
    intro key hkey
    rcases List.mem_append.1 hkey with hkey | hkey
    · exact h.contains_eq key hkey
    · exact isSome_of_map_eq (h.outlines key (List.mem_cons_of_mem _ hkey))
  have hopen : ∀ fields : Fields, isInterface (.obj fields) =
      (!(Fields.value fields "__is_any__").truthy &&
        !(["tsType", "enum", "const", "oneOf", "anyOf", "allOf"].any fun key =>
          Fields.contains fields (.str key)) && showsObject fields) := fun _ => rfl
  have hany := h.value_eq "__is_any__" (by decide)
  rw [hopen, hopen]
  simp only [List.any_cons, List.any_nil, hany, hsame "tsType" (by decide),
    hsame "enum" (by decide), hsame "const" (by decide), hsame "oneOf" (by decide),
    hsame "anyOf" (by decide), hsame "allOf" (by decide)]
  cases hdecided : decidesAlone fs with
  | false => rw [hshows hdecided]
  | true =>
    rw [h.decidesAlone_eq] at hdecided
    simp only [decidesAlone, List.any_cons, List.any_nil, Bool.or_eq_true,
      Bool.false_eq_true, or_false] at hdecided
    rcases hdecided with hkey | hkey | hkey | hkey <;> simp [hkey]

theorem contains_foldNode {fields found : Fields} (h : foldNode fields = .ok found) :
    Fields.contains found "properties" = Fields.contains fields "properties" := by
  unfold foldNode at h
  split at h
  · rename_i entries hentries
    rw [Inversion.bind_eq_ok] at h
    obtain ⟨folded, _, h⟩ := h
    rw [Inversion.pure_eq_ok] at h
    rw [← h, Fields.contains, Fields.contains, Fields.get?_set_same fields _ rfl,
      Fields.get?_of_value hentries (by simp)]
    rfl
  · rw [Except.ok.inj h]

/-- A prepared root shows an object if it did before, and it was not settled if nothing decides. -/
theorem root_of_prepare {typeName : String} {fields : Fields} {prepared : Json}
    (h : prepare typeName (.obj fields) = .ok prepared) : ∃ result, prepared = .obj result ∧
      showsObject result = showsObject fields ∧
      (decidesAlone result = false → settled (Fields.erase fields "description") = false) := by
  rw [prepare, Inversion.map_eq_ok] at h
  obtain ⟨⟨_, visits⟩, hwalk, rfl⟩ := h
  have hlevels : (withoutDescription (.obj fields)).depth =
      Json.depthFields (Fields.erase fields "description") + 1 := rfl
  unfold prepareWithVisits traverse at hwalk
  rw [hlevels, Nat.add_right_comm] at hwalk
  obtain ⟨found, results, hfold, hresult, _, _⟩ := walk_obj_eq_ok hwalk
  refine ⟨_, hresult, showsObject_congr ?_ ?_, fun hopen => ?_⟩
  · rw [get?_withChildren_other _ _ (by decide)]
    exact (get?_node_other typeName [] found (by decide)).trans
      ((value_foldNode_other hfold (by decide)).trans (Fields.get?_erase_other fields (by decide)))
  · have hmade := isSome_of_map_eq (propertiesOutline_withChildren
      ((visitor typeName).visit [] found) (results.map Prod.fst))
    have hnode : Fields.contains (node typeName [] found) "properties" =
        Fields.contains found "properties" := by
      rw [Fields.contains, get?_node_other _ _ _ (by decide), ← Fields.contains]
    have herased : Fields.contains (Fields.erase fields "description") "properties" =
        Fields.contains fields "properties" := by
      rw [Fields.contains, Fields.get?_erase_other fields (by decide), ← Fields.contains]
    exact hmade.trans (hnode.trans ((contains_foldNode hfold).trans herased))
  · have hchild : ∀ key ∈ decidingKeys, ∀ k ∈ childKeys, k.canon ≠ key.canon := by decide
    have hproperties : ∀ key ∈ ("title" : Key) :: "description" :: decidingKeys,
        (Key.str "properties").canon ≠ key.canon := by decide
    have hmade := decidesAlone_congr fun key hkey => get?_withChildren_other
      ((visitor typeName).visit [] found) (results.map Prod.fst) (hchild key hkey)
    rw [← settled_congr fun key hkey => value_foldNode_other hfold (hproperties key hkey)]
    exact settled_of_node typeName [] (hmade ▸ hopen)

/-! Schemas that are alike. -/

theorem entriesUnder_properties_eq (h : SameFace fs gs) :
    entriesUnder fs "properties" = entriesUnder gs "properties" := by
  have houtline := h.propertiesOutline_eq
  unfold entriesUnder
  generalize Fields.value fs "properties" = v at houtline ⊢
  generalize Fields.value gs "properties" = w at houtline ⊢
  cases v <;> cases w <;> first | rfl | (cases houtline <;> rfl)

/-- Schemas that are alike will be read in the same way, by induction on the levels of the first. -/
theorem foreseen_of_alike {x y : Json} (h : Alike x y) : Foreseen x y := by
  cases h with
  | leaf hno hno' => exact .leaf hno hno'
  | @node fs gs hface hparts =>
    obtain ⟨hadditional, hchildren⟩ :=
      (forall₂_append_iff (hface.view settled).length_additional).1 hparts
    have hbelow : List.Forall₂ Alike (walkedBelow fs) (walkedBelow gs) := by
      rw [walkedBelow, walkedBelow, entriesUnder_properties_eq hface]
      exact List.rel_append (forall₂_alike_refl _) hchildren
    exact .node (hface.view settled) (hadditional.imp fun _ _ => Alike.seen)
      (forall₂_imp_of_mem hbelow fun x hx y _ hxy => foreseen_of_alike hxy)
termination_by x.depth
decreasing_by
  have hle := depth_of_mem_walkedBelow hx
  rw [Json.depth]
  omega

theorem alike_withoutDescription {x y : Json} (h : Alike x y) :
    Alike (withoutDescription x) (withoutDescription y) := by
  cases h with
  | leaf hno hno' =>
    rw [withoutDescription_of_not_node hno, withoutDescription_of_not_node hno']
    exact .leaf hno hno'
  | @node fs gs hface hparts =>
    obtain ⟨hadditional, hchildren⟩ :=
      (forall₂_append_iff (hface.view settled).length_additional).1 hparts
    have hother : ∀ (fields : Fields) (l : Key), (Key.str "description").canon ≠ l.canon →
        Fields.get? (Fields.erase fields "description") l = Fields.get? fields l :=
      fun fields l hl => Fields.get?_erase_other fields hl
    refine alike_node ⟨fun key hkey => ?_, ?_, fun key hkey => ?_⟩ ?_ ?_
    · by_cases hdescription : key = "description"
      · rw [hdescription, Fields.get?_erase_same fs rfl, Fields.get?_erase_same gs rfl]
      · have hne : (Key.str "description").canon ≠ key.canon := by
          revert key
          decide
        rw [hother fs key hne, hother gs key hne, hface.read key hkey]
    · rw [hother fs _ (by decide), hother gs _ (by decide), hface.properties]
    · have hne : (Key.str "description").canon ≠ key.canon := by
        revert key
        decide
      rw [hother fs key hne, hother gs key hne, hface.outlines key hkey]
    · rw [objectUnder_congr (hother fs _ (by decide)), objectUnder_congr (hother gs _ (by decide))]
      exact hadditional
    · rw [(children_erase_description [] fs).2, (children_erase_description [] gs).2]
      exact hchildren

end SchemaDecl.Schema.Prepared
