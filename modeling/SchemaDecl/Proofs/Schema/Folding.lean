import SchemaDecl.Proofs.Schema.Idempotence

/-! When a walk comes to an end. The only thing that can stop it is a list of
properties with an entry whose name cannot be a key, as arrays and objects
cannot, at a node it comes to. It comes to the root and then to the children of
each node as the visitor has left it, so a list it never reaches does no harm. A
schema may be malformed in any other way. -/

namespace SchemaDecl.Schema

/-- A node in a list of properties needs a name that can be a key; other entries are dropped. -/
def Nameable : Json → Prop
  | .obj fields => (Fields.value fields "name").toKey? ≠ none
  | _ => True

/-- A list of properties, if the node has one, can be folded. -/
def Foldable (fields : Fields) : Prop :=
  ∀ entries, Fields.value fields "properties" = .arr entries → ∀ entry ∈ entries, Nameable entry

/-- The list of properties of a node holds an entry with this name, which can be no key. -/
structure Unfoldable (fields : Fields) (name : Json) : Prop where
  entry : ∃ entries inner, Fields.value fields "properties" = .arr entries ∧
    .obj inner ∈ entries ∧ Fields.value inner "name" = name
  unusable : name.toKey? = none

theorem Unfoldable.not_foldable {fields : Fields} {name : Json} (h : Unfoldable fields name) :
    ¬ Foldable fields := by
  obtain ⟨entries, inner, hentries, hinner, rfl⟩ := h.entry
  exact fun hfoldable => hfoldable entries hentries _ hinner h.unusable

/-! Folding. -/

theorem foldEntry_of_nameable (folded : Fields) {entry : Json} (h : Nameable entry) :
    ∃ next, foldEntry folded entry = .ok next := by
  cases entry with
  | obj fields =>
    cases hkey : (Fields.value fields "name").toKey? with
    | none => exact absurd hkey h
    | some key => exact ⟨_, by rw [foldEntry, hkey]⟩
  | _ => exact ⟨folded, rfl⟩

theorem foldEntry_of_unusable (folded : Fields) {inner : Fields}
    (h : (Fields.value inner "name").toKey? = none) :
    foldEntry folded (.obj inner) = .error (.unusableName (Fields.value inner "name")) := by
  rw [foldEntry, h]

theorem foldlM_foldEntry_cases (entries : List Json) (folded : Fields) :
    ((∀ entry ∈ entries, Nameable entry) ∧ ∃ found, entries.foldlM foldEntry folded = .ok found) ∨
      ∃ inner, .obj inner ∈ entries ∧ (Fields.value inner "name").toKey? = none ∧
        entries.foldlM foldEntry folded = .error (.unusableName (Fields.value inner "name")) := by
  induction entries generalizing folded with
  | nil => exact .inl ⟨by simp, folded, rfl⟩
  | cons entry rest ih =>
    by_cases hentry : Nameable entry
    · obtain ⟨next, hnext⟩ := foldEntry_of_nameable folded hentry
      have hstep : (entry :: rest).foldlM foldEntry folded = rest.foldlM foldEntry next := by
        rw [List.foldlM_cons, hnext]
        rfl
      rw [hstep]
      rcases ih next with ⟨hrest, found⟩ | ⟨inner, hinner, hfault⟩
      · exact .inl ⟨List.forall_mem_cons.2 ⟨hentry, hrest⟩, found⟩
      · exact .inr ⟨inner, List.mem_cons_of_mem _ hinner, hfault⟩
    · cases entry with
      | obj inner =>
        have hname : (Fields.value inner "name").toKey? = none := not_not.1 hentry
        refine .inr ⟨inner, List.mem_cons_self, hname, ?_⟩
        rw [List.foldlM_cons, foldEntry_of_unusable folded hname]
        rfl
      | _ => exact absurd trivial hentry

/-- A node is folded, or its list of properties says why not. -/
theorem foldNode_cases (fields : Fields) :
    (Foldable fields ∧ ∃ found, foldNode fields = .ok found) ∨
      ∃ name, Unfoldable fields name ∧ foldNode fields = .error (.unusableName name) := by
  by_cases hlist : ∃ entries, Fields.value fields "properties" = .arr entries
  · obtain ⟨entries, hentries⟩ := hlist
    have hfold := foldlM_foldEntry_cases entries []
    rw [← foldEntries_eq] at hfold
    rcases hfold with ⟨hall, found, hfound⟩ | ⟨inner, hinner, hname, hfault⟩
    · refine .inl ⟨fun others hothers => ?_, Fields.set fields "properties" (.obj found), ?_⟩
      · rw [← Json.arr.inj (hentries.symm.trans hothers)]
        exact hall
      · simp only [foldNode, hentries, hfound]
        rfl
    · refine .inr ⟨_, ⟨⟨entries, inner, hentries, hinner, rfl⟩, hname⟩, ?_⟩
      simp only [foldNode, hentries, hfault]
      rfl
  · have hno : ∀ entries, Fields.value fields "properties" ≠ .arr entries :=
      fun entries hentries => hlist ⟨entries, hentries⟩
    exact .inl ⟨fun entries hentries => absurd hentries (hno entries), fields,
      foldNode_of_not_arr hno⟩

/-! Walks. -/

/-- The nodes a walk comes to, with their paths: the root, and what stands below a node after it was
folded and visited. -/
inductive Comes (visitor : Visitor) : Path → Json → Path → Fields → Prop
  | here {path : Path} {fields : Fields} : Comes visitor path (.obj fields) path fields
  | through {path further : Path} {fields found node : Fields} {child : Path × Json} :
      foldNode fields = .ok found → child ∈ children path (visitor.visit path found) →
        Comes visitor child.1 child.2 further node → Comes visitor path (.obj fields) further node

/-- What a visitor leaves below a node is no deeper than what was found there. -/
def Visitor.Shallow (visitor : Visitor) : Prop :=
  ∀ path fields found, foldNode fields = .ok found →
    ∀ child ∈ children path (visitor.visit path found), child.2.depth ≤ Json.depthFields fields

theorem walkAll_cases (walker : Walker) (nodes : List (Path × Json)) :
    ((∀ node ∈ nodes, ∃ result, walker node.1 node.2 = .ok result) ∧
      ∃ result, walkAll walker nodes = .ok result) ∨
    ∃ node ∈ nodes, ∃ fault, walker node.1 node.2 = .error fault ∧
      walkAll walker nodes = .error fault := by
  induction nodes with
  | nil => exact .inl ⟨by simp, _, rfl⟩
  | cons node rest ih =>
    obtain ⟨path, x⟩ := node
    cases hx : walker path x with
    | error fault =>
      refine .inr ⟨(path, x), List.mem_cons_self, fault, hx, ?_⟩
      rw [walkAll, hx]
      rfl
    | ok first =>
      have hrest : walkAll walker ((path, x) :: rest) = walkAll walker rest >>= fun others =>
          .ok (first.1 :: others.1, first.2 ++ others.2) := by
        rw [walkAll, hx]
        rfl
      rw [hrest]
      rcases ih with ⟨hall, others, hothers⟩ | ⟨node, hnode, fault, hfault, hwalk⟩
      · exact .inl ⟨List.forall_mem_cons.2 ⟨⟨first, hx⟩, hall⟩, _, by rw [hothers]; rfl⟩
      · exact .inr ⟨node, List.mem_cons_of_mem _ hnode, fault, hfault, by rw [hwalk]; rfl⟩

theorem walk_of_foldNode {visitor : Visitor} {levels : Nat} {path : Path} {fields found : Fields}
    (hfound : foldNode fields = .ok found) :
    walk visitor (levels + 1) path (.obj fields) =
      walkAll (walk visitor levels) (children path (visitor.visit path found)) >>= fun below =>
        .ok (.obj (withChildren (visitor.visit path found) below.1), ⟨path, found⟩ :: below.2) := by
  simp only [walk, walkNode, hfound]
  rfl

/-- A walk ends well and every node it comes to can be folded, or it stops at one that cannot. -/
def EndsOrStops (visitor : Visitor) (levels : Nat) (path : Path) (schema : Json) : Prop :=
  ((∀ further node, Comes visitor path schema further node → Foldable node) ∧
    ∃ result, walk visitor levels path schema = .ok result) ∨
  ∃ further node name, Comes visitor path schema further node ∧ Unfoldable node name ∧
    walk visitor levels path schema = .error (.unusableName name)

/-- A node that can be folded ends or stops as the walks below it do. -/
theorem endsOrStops_of_children {visitor : Visitor} {levels : Nat} {path : Path}
    {fields found : Fields} (hfoldable : Foldable fields) (hfound : foldNode fields = .ok found)
    (hbelow : ∀ child ∈ children path (visitor.visit path found),
      EndsOrStops visitor levels child.1 child.2) :
    EndsOrStops visitor (levels + 1) path (.obj fields) := by
  rw [EndsOrStops, walk_of_foldNode hfound]
  rcases walkAll_cases (walk visitor levels) (children path (visitor.visit path found)) with
    ⟨hall, below, hok⟩ | ⟨child, hchild, fault, hfault, herror⟩
  · refine .inl ⟨fun further node hcomes => ?_, _, by rw [hok]; rfl⟩
    cases hcomes with
    | here => exact hfoldable
    | @through _ _ _ found' _ child hfound' hchild hcomes =>
      obtain rfl : found = found' := Except.ok.inj (hfound.symm.trans hfound')
      rcases hbelow child hchild with ⟨hgood, _⟩ | ⟨_, _, _, _, _, hbad⟩
      · exact hgood further node hcomes
      · obtain ⟨result, hresult⟩ := hall child hchild
        rw [hbad] at hresult
        cases hresult
  · rcases hbelow child hchild with
      ⟨_, result, hresult⟩ | ⟨further, node, name, hcomes, hname, hbad⟩
    · rw [hresult] at hfault
      cases hfault
    · refine .inr ⟨further, node, name, .through hfound hchild hcomes, hname, ?_⟩
      rw [herror, ← Except.error.inj (hbad.symm.trans hfault)]
      rfl

theorem endsOrStops_of_not_node {visitor : Visitor} {levels : Nat} {path : Path} {schema : Json}
    (hno : ∀ fields, schema ≠ .obj fields) : EndsOrStops visitor levels path schema := by
  refine .inl ⟨fun further node hcomes => ?_, _, walk_of_not_node visitor levels path hno⟩
  cases hcomes with
  | here => exact absurd rfl (hno _)
  | through => exact absurd rfl (hno _)

/-- The induction is on the levels, which reach all nodes if they reach the whole tree. -/
theorem endsOrStops {visitor : Visitor} (hv : visitor.Shallow) {levels : Nat} {path : Path}
    {schema : Json} (hdepth : schema.depth ≤ levels) :
    EndsOrStops visitor levels path schema := by
  induction levels generalizing path schema with
  | zero =>
    refine endsOrStops_of_not_node ?_
    rintro fields rfl
    simp [Json.depth] at hdepth
  | succ levels ih =>
    by_cases hno : ∀ fields, schema ≠ .obj fields
    · exact endsOrStops_of_not_node hno
    push Not at hno
    obtain ⟨fields, rfl⟩ := hno
    rw [Json.depth] at hdepth
    rcases foldNode_cases fields with ⟨hfoldable, found, hfound⟩ | ⟨name, hname, hfault⟩
    · refine endsOrStops_of_children hfoldable hfound fun child hchild => ih ?_
      have hle := hv path fields found hfound child hchild
      omega
    · refine .inr ⟨path, fields, name, .here, hname, ?_⟩
      simp only [walk, walkNode, hfault]
      rfl

/-- If every node it comes to can be folded, the walk ends well. -/
theorem walk_total {visitor : Visitor} (hv : visitor.Shallow) {levels : Nat} {path : Path}
    {schema : Json} (hdepth : schema.depth ≤ levels)
    (h : ∀ further node, Comes visitor path schema further node → Foldable node) :
    ∃ result visits, walk visitor levels path schema = .ok (result, visits) := by
  rcases endsOrStops hv hdepth with
    ⟨_, ⟨result, visits⟩, hok⟩ | ⟨further, node, name, hcomes, hbad, _⟩
  · exact ⟨result, visits, hok⟩
  · exact absurd (h further node hcomes) hbad.not_foldable

/-- What holds of the root and, with a node, of what the visitor leaves below it, holds of every
node a walk comes to. -/
theorem Comes.induction {visitor : Visitor} (Given : Path → Json → Prop)
    (hchild : ∀ path fields found, Given path (.obj fields) → foldNode fields = .ok found →
      ∀ child ∈ children path (visitor.visit path found), Given child.1 child.2)
    {path further : Path} {schema : Json} {node : Fields}
    (h : Comes visitor path schema further node) (hgiven : Given path schema) :
    Given further (.obj node) := by
  induction h with
  | here => exact hgiven
  | @through path _ fields found _ child hfound hmem _ ih =>
    exact ih (hchild path fields found hgiven hfound child hmem)

namespace Normal

theorem shallow_visitor (table : Fields) : (visitor table).Shallow := by
  intro path fields found hfound child hchild
  rw [visit_eq] at hchild
  have hmem : child.2 ∈ childValues (node table found) := by
    rw [← children_map_snd path]
    exact List.mem_map_of_mem hchild
  rcases child_or_nested_of_mem_node hfound hmem with hbelow | ⟨xs, rest, hitems, hx⟩
  · exact hbelow.depth_le
  · have hlist : (Json.arr xs).depth ≤ Json.depthFields fields :=
      depth_of_mem_items (by simp [items, hitems])
    have hle := Json.depth_le_depthItems hx
    rw [Json.depth] at hlist
    omega

theorem normalize_eq_error {table : Fields} {schema : Json} {fault : FoldFault} :
    normalize table schema = .error fault ↔
      walk (visitor table) (schema.depth + 0) [] schema = .error fault := by
  unfold normalize traverse
  show Except.map Prod.fst (walk (visitor table) (schema.depth + 0) [] schema) = _ ↔ _
  cases walk (visitor table) (schema.depth + 0) [] schema with
  | ok result => constructor <;> exact nofun
  | error other => simp [Except.map]

/-- With a mapping of names to names a schema of any kind is normalized, unless the walk comes to a
list of properties with an entry whose name is an array or an object. Then this name is the
fault. -/
theorem normalizes_iff_foldable (custom : List (String × String)) (schema : Json) :
    ∃ table, TypeNames.tableOf? (.obj (named custom)) = some table ∧
      ((∃ result, normalize table schema = .ok result) ↔
        ∀ path node, Comes (visitor table) [] schema path node → Foldable node) ∧
      ∀ fault, normalize table schema = .error fault → ∃ path node name,
        Comes (visitor table) [] schema path node ∧ Unfoldable node name ∧
          fault = .unusableName name := by
  refine ⟨_, tableOf?_obj _, ?_⟩
  generalize TypeNames.table (named custom) = table
  rcases endsOrStops (shallow_visitor table) (Nat.le_refl (schema.depth + 0)) with
    ⟨hall, ⟨result, visits⟩, hok⟩ | ⟨path, node, name, hcomes, hname, herror⟩
  · have hnormal := normalize_eq_ok.2 ⟨visits, hok⟩
    refine ⟨⟨fun _ => hall, fun _ => ⟨result, hnormal⟩⟩, fun fault hfault => ?_⟩
    rw [hnormal] at hfault
    cases hfault
  · have hfails := normalize_eq_error.2 herror
    refine ⟨⟨fun ⟨result, hok⟩ => ?_, fun hall => ?_⟩, fun fault hfault => ?_⟩
    · rw [hfails] at hok
      cases hok
    · exact absurd (hall path node hcomes) hname.not_foldable
    · rw [hfails] at hfault
      exact ⟨path, node, name, hcomes, hname, (Except.error.inj hfault).symm⟩

/-- A list for a name stops the walk, so there are schemas for which nothing is returned. -/
theorem listed_name_stops :
    normalize TypeNames.builtin (.obj [("properties", .arr [.obj [("name", .arr [])]])]) =
        .error (.unusableName (.arr [])) ∧
      ¬ ∀ (custom : List (String × String)) (schema : Json), ∃ table result,
        TypeNames.tableOf? (.obj (named custom)) = some table ∧
          normalize table schema = .ok result := by
  refine ⟨rfl, fun h => ?_⟩
  obtain ⟨table, result, htable, hresult⟩ :=
    h [] (.obj [("properties", .arr [.obj [("name", .arr [])]])])
  obtain rfl : TypeNames.builtin = table := Option.some.inj htable
  cases hresult

end Normal

end SchemaDecl.Schema
