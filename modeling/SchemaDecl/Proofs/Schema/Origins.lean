import SchemaDecl.Proofs.Schema.Addresses
import SchemaDecl.Proofs.Schema.PairedWalks

/-! Where the nodes of a walked tree come from. A walk returns a tree of its own
shape: what a visitor drops is gone from it, and what it merges stands there
once. So the value a node was made from is found by going down along the address
of that node in the returned tree, through every node as it was folded and
visited, and not along an address in the tree that was given. -/

namespace SchemaDecl.Schema

/-- What the walk comes to at an address of the tree it returns, as it was given. -/
inductive Origin (visitor : Visitor) : Path → Json → Address → Json → Prop
  | here {path : Path} {x : Json} : Origin visitor path x [] x
  | through {path : Path} {fields found : Fields} {step : Step} {x y : Json} {address : Address} :
      foldNode fields = .ok found → (step, x) ∈ steps (visitor.visit path found) →
        Origin visitor (path ++ step.segments) x address y →
          Origin visitor path (.obj fields) (step :: address) y

/-- A node was folded and visited, and got its walked children. -/
structure Walked (visitor : Visitor) (path : Path) (fields found node : Fields) : Prop where
  folded : foldNode fields = .ok found
  written : ∃ new, List.Forall₂ Kept (childValues (visitor.visit path found)) new ∧
    node = withChildren (visitor.visit path found) new

/-- Values that were made one by one stand behind the steps of those they were made from. -/
theorem exists_of_mem_zip {α β γ : Type} {R : α × β → γ → Prop} {xs : List (α × β)} {new : List γ}
    (h : List.Forall₂ R xs new) {a : α} {x : γ} (hx : (a, x) ∈ (xs.map Prod.fst).zip new) :
    ∃ y, (a, y) ∈ xs ∧ R (a, y) x := by
  rw [List.zip_map_left] at hx
  obtain ⟨⟨⟨b, y⟩, z⟩, hzip, heq⟩ := List.mem_map.1 hx
  obtain ⟨rfl, rfl⟩ := Prod.mk.inj heq
  exact ⟨y, (List.of_mem_zip hzip).1, List.forall₂_zip h hzip⟩

section
variable {visitor : Visitor} {path : Path} {schema : Json} {address : Address}
  {fields found node : Fields}

/-- One step further down. -/
theorem Origin.step (h : Origin visitor path schema address (.obj fields))
    (hfold : foldNode fields = .ok found) {step : Step} {x : Json}
    (hx : (step, x) ∈ steps (visitor.visit (path ++ address.path) found)) :
    Origin visitor path schema (address ++ [step]) x := by
  generalize hy : Json.obj fields = y at h
  induction h with
  | here =>
    subst hy
    rw [Address.path, List.flatMap_nil, List.append_nil] at hx
    exact .through hfold hx .here
  | through hfold' hmem _ ih =>
    rw [Address.path_cons, ← List.append_assoc] at hx
    exact .through hfold' hmem (ih hx hy)

/-- No step from a visited node is taken twice. -/
def Visitor.Distinct (visitor : Visitor) : Prop :=
  ∀ path found, ((steps (visitor.visit path found)).map Prod.fst).Nodup

/-- An address goes back to one value. -/
theorem Origin.unique (hv : visitor.Distinct) {x y : Json}
    (h : Origin visitor path schema address x) (h' : Origin visitor path schema address y) :
    x = y := by
  induction h with
  | here =>
    cases h'
    rfl
  | through hfold hmem _ ih =>
    cases h' with
    | through hfold' hmem' hrest =>
      obtain rfl := Except.ok.inj (hfold.symm.trans hfold')
      have hsame := List.inj_on_of_nodup_map (hv _ _) hmem hmem' rfl
      obtain rfl := (Prod.mk.inj hsame).2
      exact ih hrest

theorem Walked.kept (h : Walked visitor path fields found node) {step : Step} {x : Json}
    (hx : (step, x) ∈ steps node) :
    ∃ y, (step, y) ∈ steps (visitor.visit path found) ∧ Kept y x := by
  obtain ⟨new, hkept, rfl⟩ := h.written
  rw [steps_withChildren hkept] at hx
  rw [← steps_map_snd, List.forall₂_map_left_iff] at hkept
  exact exists_of_mem_zip hkept hx

/-- What is no node is in the returned tree as it was given. -/
theorem Walked.leaf (h : Walked visitor (path ++ address.path) fields found node)
    (horigin : Origin visitor path schema address (.obj fields)) {step : Step} {x : Json}
    (hx : (step, x) ∈ steps node) (hno : ∀ inner, x ≠ .obj inner) :
    Origin visitor path schema (address ++ [step]) x := by
  obtain ⟨y, hy, rfl | ⟨_, inner, _, rfl⟩⟩ := h.kept hx
  · exact horigin.step h.folded hy
  · exact absurd rfl (hno inner)

/-- A walk returns a leaf as it is, and a node with its walked children. -/
theorem walk_cases {levels : Nat} {result : Json} {visits : List Visit}
    (hdepth : schema.depth ≤ levels)
    (h : walk visitor levels path schema = .ok (result, visits)) :
    ((∀ fields, schema ≠ .obj fields) ∧ result = schema) ∨
      ∃ below fields found new, levels = below + 1 ∧ schema = .obj fields ∧
        result = .obj (withChildren (visitor.visit path found) new) ∧ foldNode fields = .ok found ∧
        List.Forall₂ Kept (childValues (visitor.visit path found)) new ∧
        List.Forall₂ (fun child x => ∃ visits,
          walk visitor below (path ++ child.1.segments) child.2 = .ok (x, visits))
          (steps (visitor.visit path found)) new := by
  by_cases hno : ∀ fields, schema ≠ .obj fields
  · rw [walk_of_not_node _ _ _ hno] at h
    exact .inl ⟨hno, (Prod.mk.inj (Except.ok.inj h)).1.symm⟩
  push Not at hno
  obtain ⟨fields, rfl⟩ := hno
  obtain ⟨below, rfl⟩ : ∃ below, levels = below + 1 := by
    rw [Json.depth] at hdepth
    exact ⟨levels - 1, by omega⟩
  obtain ⟨found, results, hfold, rfl, _, hall⟩ := walk_obj_eq_ok h
  refine .inr ⟨below, fields, found, results.map Prod.fst, rfl, rfl, rfl, hfold, ?_, ?_⟩
  · rw [← children_map_snd path, List.forall₂_map_left_iff, List.forall₂_map_right_iff]
    exact hall.imp fun _ _ hwalk => kept_of_walk hwalk
  · rw [children_eq_steps, List.forall₂_map_left_iff] at hall
    rw [List.forall₂_map_right_iff]
    exact hall.imp fun _ result hwalk => ⟨result.2, hwalk⟩

/-- Every node of the tree a walk returns was made from a node of the tree it was given. -/
theorem exists_origin (hv : visitor.Shallow) {levels : Nat} {result : Json} {visits : List Visit}
    (hdepth : schema.depth ≤ levels)
    (h : walk visitor levels path schema = .ok (result, visits)) (hat : At result address node) :
    ∃ fields found, Origin visitor path schema address (.obj fields) ∧
      Walked visitor (path ++ address.path) fields found node := by
  induction levels using Nat.strong_induction_on generalizing path schema result visits address with
  | _ levels ih =>
    rcases walk_cases hdepth h with
      ⟨hno, rfl⟩ | ⟨below, fields, found, new, rfl, rfl, rfl, hfold, hkept, hall⟩
    · cases hat <;> exact absurd rfl (hno _)
    rw [Json.depth] at hdepth
    cases hat with
    | here =>
      have hpath : path ++ Address.path [] = path := List.append_nil path
      refine ⟨fields, found, .here, ?_⟩
      rw [hpath]
      exact ⟨hfold, new, hkept, rfl⟩
    | @through _ _ step x further hstep hat =>
      rw [steps_withChildren hkept] at hstep
      obtain ⟨y, hy, visits, hwalk⟩ := exists_of_mem_zip hall hstep
      have hle : y.depth ≤ Json.depthFields fields := by
        refine hv path fields found hfold (path ++ step.segments, y) ?_
        rw [children_eq_steps]
        exact List.mem_map_of_mem (f := fun c => (path ++ c.1.segments, c.2)) hy
      obtain ⟨given, folded, horigin, hwalked⟩ :=
        ih below (Nat.lt_succ_self below) (Nat.le_trans hle (by omega)) hwalk hat
      refine ⟨given, folded, .through hfold hy horigin, ?_⟩
      rwa [Address.path_cons, ← List.append_assoc]
end

end SchemaDecl.Schema
