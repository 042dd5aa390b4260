import SchemaDecl.Proofs.Inversion
import SchemaDecl.Proofs.Schema.Children

/-! The nodes of a schema tree as it is given, before anything is folded or
rewritten, and the walk taken apart. A child is always lower than its parent, so
as many levels as the tree is deep reach all of it. -/

namespace SchemaDecl.Schema

/-- What stands directly below the fields of a node. -/
inductive Child (fields : Fields) : Json → Prop
  | property {properties : Fields} {key : Key} {x : Json} :
      Fields.value fields "properties" = .obj properties → (key, x) ∈ properties → Child fields x
  | entry {entries : List Json} {x : Json} :
      Fields.value fields "properties" = .arr entries → x ∈ entries → Child fields x
  | item {x : Json} : x ∈ items fields → Child fields x
  | member {key : Key} {x : Json} : key ∈ combinators → x ∈ members fields key → Child fields x

/-- The values in the positions of schemas, from the root down. -/
inductive Reaches : Json → Json → Prop
  | root {x : Json} : Reaches x x
  | through {fields : Fields} {x y : Json} :
      Child fields x → Reaches x y → Reaches (.obj fields) y

theorem depth_of_mem_items {fields : Fields} {x : Json} (h : x ∈ items fields) :
    x.depth ≤ Json.depthFields fields := by
  have hvalue := Fields.depth_value_le fields "items"
  cases hv : Fields.value fields "items" with
  | null => simp only [items, hv, List.not_mem_nil] at h
  | arr xs =>
    simp only [items, hv] at h
    have hx := Json.depth_le_depthItems h
    rw [hv, Json.depth] at hvalue
    omega
  | _ =>
    simp only [items, hv, List.mem_singleton] at h
    rw [h, ← hv]
    exact hvalue

theorem depth_of_mem_members {fields : Fields} {key : Key} {x : Json}
    (h : x ∈ members fields key) : x.depth ≤ Json.depthFields fields := by
  have hvalue := Fields.depth_value_le fields key
  cases hv : Fields.value fields key with
  | arr xs =>
    simp only [members, hv] at h
    have hx := Json.depth_le_depthItems h
    rw [hv, Json.depth] at hvalue
    omega
  | _ => simp only [members, hv, List.not_mem_nil] at h

theorem Child.depth_le {fields : Fields} {x : Json} (h : Child fields x) :
    x.depth ≤ Json.depthFields fields := by
  have hvalue := Fields.depth_value_le fields "properties"
  cases h with
  | property hp hx =>
    have hle := Json.depth_le_depthFields hx
    rw [hp, Json.depth] at hvalue
    simp only at hle
    omega
  | entry hp hx =>
    have hle := Json.depth_le_depthItems hx
    rw [hp, Json.depth] at hvalue
    omega
  | item hx => exact depth_of_mem_items hx
  | member _ hx => exact depth_of_mem_members hx

/-! Folding. -/

/-- One entry folded into the members found before it. -/
def foldEntry (folded : Fields) : Json → Except FoldFault Fields
  | .obj fields =>
    let name := Fields.value fields "name"
    match name.toKey? with
    | some key => .ok (Fields.set folded key (.obj fields))
    | none => .error (.unusableName name)
  | _ => .ok folded

theorem foldEntries_eq (entries : List Json) :
    foldEntries entries = entries.foldlM foldEntry [] := by
  refine congrArg (fun step => entries.foldlM step []) ?_
  funext folded entry
  cases entry <;> rfl

theorem mem_foldEntry {folded next : Fields} {entry : Json} (h : foldEntry folded entry = .ok next)
    {f : Key × Json} (hf : f ∈ next) : f ∈ folded ∨ f.2 = entry := by
  cases entry with
  | obj fields =>
    simp only [foldEntry] at h
    split at h
    · rw [← Except.ok.inj h] at hf
      exact (Fields.mem_set hf).imp_right And.left
    · cases h
  | _ => exact .inl (Except.ok.inj h ▸ hf)

/-- What holds at first and is kept by each entry holds of a folded list. -/
theorem foldEntries_induction {P : Fields → Prop} {entries : List Json} (hstart : P [])
    (hstep : ∀ folded next entry, entry ∈ entries → P folded → foldEntry folded entry = .ok next →
      P next) {folded : Fields} (h : foldEntries entries = .ok folded) : P folded := by
  have found : ∀ (rest : List Json) (sofar result : Fields), (∀ entry ∈ rest, entry ∈ entries) →
      P sofar → rest.foldlM foldEntry sofar = .ok result → P result := by
    intro rest
    induction rest with
    | nil =>
      intro sofar result _ hsofar hr
      rw [List.foldlM_nil, Inversion.pure_eq_ok] at hr
      exact hr ▸ hsofar
    | cons entry rest ih =>
      intro sofar result hin hsofar hr
      rw [List.foldlM_cons, Inversion.bind_eq_ok] at hr
      obtain ⟨next, hnext, hr⟩ := hr
      exact ih next result (fun e he => hin e (List.mem_cons_of_mem _ he))
        (hstep sofar next entry (hin entry List.mem_cons_self) hsofar hnext) hr
  rw [foldEntries_eq] at h
  exact found entries [] folded (fun _ he => he) hstart h

/-- Every value of a folded list was an entry of it. -/
theorem mem_foldEntries {entries : List Json} {folded : Fields}
    (h : foldEntries entries = .ok folded) {f : Key × Json} (hf : f ∈ folded) : f.2 ∈ entries := by
  refine foldEntries_induction (P := fun folded => ∀ f ∈ folded, f.2 ∈ entries) (by simp) ?_ h f hf
  intro sofar next entry hentry hsofar hnext g hg
  rcases mem_foldEntry hnext hg with hold | hnew
  · exact hsofar g hold
  · exact hnew ▸ hentry

/-- Every key of a folded list was the name of one of its entries. -/
theorem key_foldEntries {entries : List Json} {folded : Fields}
    (h : foldEntries entries = .ok folded) {f : Key × Json} (hf : f ∈ folded) :
    ∃ fields, .obj fields ∈ entries ∧ (Fields.value fields "name").toKey? = some f.1 := by
  refine foldEntries_induction (P := fun folded => ∀ f ∈ folded, ∃ fields,
    .obj fields ∈ entries ∧ (Fields.value fields "name").toKey? = some f.1) (by simp) ?_ h f hf
  intro sofar next entry hentry hsofar hnext g hg
  cases entry with
  | obj fields =>
    simp only [foldEntry] at hnext
    split at hnext
    · rename_i key hkey
      rw [← Except.ok.inj hnext] at hg
      rcases Fields.mem_set hg with hold | ⟨_, hsame | ⟨w, hold⟩⟩
      · exact hsofar g hold
      · exact ⟨fields, hentry, hsame ▸ hkey⟩
      · exact hsofar (g.1, w) hold
    · cases hnext
  | _ => exact hsofar g (Except.ok.inj hnext ▸ hg)

theorem value_foldNode_other {fields found : Fields} (h : foldNode fields = .ok found) {l : Key}
    (hl : (Key.str "properties").canon ≠ l.canon) :
    Fields.get? found l = Fields.get? fields l := by
  unfold foldNode at h
  split at h
  · rw [Inversion.bind_eq_ok] at h
    obtain ⟨folded, _, h⟩ := h
    rw [Inversion.pure_eq_ok] at h
    rw [← h, Fields.get?_set_other fields _ hl]
  · rw [Except.ok.inj h]

/-- After folding the properties are no list, and each of them stood below the node before. -/
theorem properties_foldNode {fields found : Fields} (h : foldNode fields = .ok found) :
    (∀ entries, Fields.value found "properties" ≠ .arr entries) ∧
      ∀ properties f, Fields.value found "properties" = .obj properties → f ∈ properties →
        Child fields f.2 := by
  unfold foldNode at h
  split at h
  · rename_i entries hentries
    rw [Inversion.bind_eq_ok] at h
    obtain ⟨folded, hfolded, h⟩ := h
    rw [Inversion.pure_eq_ok] at h
    have hvalue : Fields.value found "properties" = .obj folded := by
      rw [← h, Fields.value_set_same fields _ rfl]
    rw [hvalue]
    refine ⟨by simp, fun properties f hp hf => ?_⟩
    rw [← Json.obj.inj hp] at hf
    exact .entry hentries (mem_foldEntries hfolded hf)
  · rename_i hno
    rw [← Except.ok.inj h]
    exact ⟨hno, fun properties f hp hf => .property hp hf⟩

theorem foldNode_of_not_arr {fields : Fields}
    (h : ∀ entries, Fields.value fields "properties" ≠ .arr entries) :
    foldNode fields = .ok fields := by
  unfold foldNode
  split
  · rename_i entries hentries
    exact absurd hentries (h entries)
  · rfl

/-! The walk over the children of a node. -/

/-- A walk over several nodes puts the results one behind the other, and the visits as well. -/
theorem walkAll_eq_ok {walker : Walker} {nodes : List (Path × Json)} {new : List Json}
    {visits : List Visit} (h : walkAll walker nodes = .ok (new, visits)) :
    ∃ results : List (Json × List Visit), new = results.map Prod.fst ∧
      visits = (results.map Prod.snd).flatten ∧
      List.Forall₂ (fun node result => walker node.1 node.2 = .ok result) nodes results := by
  induction nodes generalizing new visits with
  | nil =>
    cases h
    exact ⟨[], rfl, rfl, .nil⟩
  | cons node rest ih =>
    obtain ⟨path, x⟩ := node
    simp only [walkAll, Inversion.bind_eq_ok, Inversion.pure_eq_ok] at h
    obtain ⟨⟨result, here⟩, hx, ⟨others, more⟩, hrest, h⟩ := h
    obtain ⟨rfl, rfl⟩ := Prod.mk.inj h
    obtain ⟨results, rfl, rfl, hall⟩ := ih hrest
    exact ⟨(result, here) :: results, rfl, rfl, .cons hx hall⟩

theorem walkAll_of_fixed {walker : Walker} {nodes : List (Path × Json)}
    (h : ∀ node ∈ nodes, ∃ visits, walker node.1 node.2 = .ok (node.2, visits)) :
    ∃ visits, walkAll walker nodes = .ok (nodes.map Prod.snd, visits) := by
  induction nodes with
  | nil => exact ⟨[], rfl⟩
  | cons node rest ih =>
    obtain ⟨here, hx⟩ := h node List.mem_cons_self
    obtain ⟨more, hrest⟩ := ih fun x hx => h x (List.mem_cons_of_mem _ hx)
    obtain ⟨path, x⟩ := node
    refine ⟨here ++ more, ?_⟩
    simp only [walkAll, Inversion.bind_eq_ok, Inversion.pure_eq_ok]
    exact ⟨(x, here), hx, (rest.map Prod.snd, more), hrest, rfl⟩

/-- A walked node is folded, visited, and then gets its walked children. -/
theorem walk_obj_eq_ok {visitor : Visitor} {levels : Nat} {path : Path} {fields : Fields}
    {result : Json} {visits : List Visit}
    (h : walk visitor (levels + 1) path (.obj fields) = .ok (result, visits)) :
    ∃ found results, foldNode fields = .ok found ∧
      result = .obj (withChildren (visitor.visit path found) (results.map Prod.fst)) ∧
      visits = ⟨path, found⟩ :: (results.map Prod.snd).flatten ∧
      List.Forall₂ (fun node result => walk visitor levels node.1 node.2 = .ok result)
        (children path (visitor.visit path found)) results := by
  simp only [walk, walkNode, Inversion.bind_eq_ok, Inversion.pure_eq_ok] at h
  obtain ⟨found, hfound, ⟨new, below⟩, hall, h⟩ := h
  obtain ⟨rfl, rfl⟩ := Prod.mk.inj h
  obtain ⟨results, rfl, rfl, hresults⟩ := walkAll_eq_ok hall
  exact ⟨found, results, hfound, rfl, rfl, hresults⟩

theorem mem_right_of_forall₂ {α β : Type} {R : α → β → Prop} {as : List α} {bs : List β}
    (h : List.Forall₂ R as bs) {b : β} (hb : b ∈ bs) : ∃ a ∈ as, R a b := by
  obtain ⟨i, hi, rfl⟩ := List.getElem_of_mem hb
  have hi' : i < as.length := h.length_eq ▸ hi
  exact ⟨as[i], List.getElem_mem hi', h.get hi' hi⟩

/-- The walk keeps the kind of every value, and what it returns stands in a relation to its path
and its visits if every node does whose new children do. The induction is on the levels the walk is
given, of which a child needs one less than its parent. -/
theorem walk_made {visitor : Visitor} (Given : Path → Json → Prop)
    (Made : Path → Json → List Visit → Prop)
    (hleaf : ∀ path schema, (∀ fields, schema ≠ .obj fields) → Given path schema →
      Made path schema [])
    (hchild : ∀ path fields found, Given path (.obj fields) → foldNode fields = .ok found →
      ∀ child ∈ children path (visitor.visit path found),
        child.2.depth ≤ Json.depthFields fields ∧ Given child.1 child.2)
    (hnode : ∀ path fields found (results : List (Json × List Visit)), Given path (.obj fields) →
      foldNode fields = .ok found →
      List.Forall₂ Kept (childValues (visitor.visit path found)) (results.map Prod.fst) →
      List.Forall₂ (fun child result => Made child.1 result.1 result.2)
        (children path (visitor.visit path found)) results →
      Made path (.obj (withChildren (visitor.visit path found) (results.map Prod.fst)))
        (⟨path, found⟩ :: (results.map Prod.snd).flatten))
    {levels : Nat} {path : Path} {schema result : Json} {visits : List Visit}
    (hdepth : schema.depth ≤ levels) (hgiven : Given path schema)
    (h : walk visitor levels path schema = .ok (result, visits)) :
    Kept schema result ∧ Made path result visits := by
  have hstays : ∀ {levels path schema result visits}, (∀ fields, schema ≠ .obj fields) →
      Given path schema → walk visitor levels path schema = .ok (result, visits) →
        Kept schema result ∧ Made path result visits := by
    intro levels path schema result visits hno hgiven h
    rw [walk_of_not_node _ _ _ hno] at h
    obtain ⟨rfl, rfl⟩ := Prod.mk.inj (Except.ok.inj h)
    exact ⟨.inl rfl, hleaf path schema hno hgiven⟩
  induction levels generalizing path schema result visits with
  | zero =>
    refine hstays ?_ hgiven h
    rintro fields rfl
    rw [Json.depth] at hdepth
    omega
  | succ levels ih =>
    by_cases hobj : ∃ fields, schema = .obj fields
    · obtain ⟨fields, rfl⟩ := hobj
      rw [Json.depth] at hdepth
      obtain ⟨found, results, hfold, rfl, rfl, hall⟩ := walk_obj_eq_ok h
      have hbelow : List.Forall₂
          (fun child result => Kept child.2 result.1 ∧ Made child.1 result.1 result.2)
          (children path (visitor.visit path found)) results := by
        refine List.forall₂_iff_zip.2 ⟨hall.length_eq, fun {child result} hzip => ?_⟩
        have hresult := List.forall₂_zip hall hzip
        obtain ⟨hle, hnext⟩ := hchild path fields found hgiven hfold child (List.of_mem_zip hzip).1
        exact ih (by omega) hnext hresult
      have hkept : List.Forall₂ Kept (childValues (visitor.visit path found))
          (results.map Prod.fst) := by
        rw [← children_map_snd path, List.forall₂_map_left_iff, List.forall₂_map_right_iff]
        exact hbelow.imp fun _ _ hx => hx.1
      refine ⟨.inr ⟨fields, _, rfl, rfl⟩, ?_⟩
      exact hnode path fields found results hgiven hfold hkept (hbelow.imp fun _ _ hx => hx.2)
    · exact hstays (fun fields heq => hobj ⟨fields, heq⟩) hgiven h

/-- The same for a property of what is returned, wherever it stands. -/
theorem walk_induction {visitor : Visitor} (Given : Path → Json → Prop) (Made : Json → Prop)
    (hleaf : ∀ path schema, (∀ fields, schema ≠ .obj fields) → Given path schema → Made schema)
    (hchild : ∀ path fields found, Given path (.obj fields) → foldNode fields = .ok found →
      ∀ child ∈ children path (visitor.visit path found),
        child.2.depth ≤ Json.depthFields fields ∧ Given child.1 child.2)
    (hnode : ∀ path fields found new, Given path (.obj fields) → foldNode fields = .ok found →
      List.Forall₂ Kept (childValues (visitor.visit path found)) new → (∀ x ∈ new, Made x) →
        Made (.obj (withChildren (visitor.visit path found) new)))
    {levels : Nat} {path : Path} {schema result : Json} {visits : List Visit}
    (hdepth : schema.depth ≤ levels) (hgiven : Given path schema)
    (h : walk visitor levels path schema = .ok (result, visits)) :
    Kept schema result ∧ Made result := by
  refine walk_made Given (fun _ result _ => Made result) hleaf hchild ?_ hdepth hgiven h
  intro path fields found results hgiven hfold hkept hall
  refine hnode path fields found _ hgiven hfold hkept fun x hx => ?_
  obtain ⟨result, hresult, rfl⟩ := List.mem_map.1 hx
  obtain ⟨_, _, hmade⟩ := mem_right_of_forall₂ hall hresult
  exact hmade

end SchemaDecl.Schema
