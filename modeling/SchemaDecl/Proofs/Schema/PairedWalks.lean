import SchemaDecl.Proofs.Schema.Folding

/-! Two walks side by side. If the schemas match, node for node, and the visitor
keeps matching nodes matching, then either both walks end well and the results
match, or both stop for the same reason. -/

namespace SchemaDecl.Schema

/-- Both computations fail in the same way, or both end well with results that match. -/
def SameEnd {ε α β : Type} (Q : α → β → Prop) (x : Except ε α) (y : Except ε β) : Prop :=
  (∃ fault, x = .error fault ∧ y = .error fault) ∨ ∃ a b, x = .ok a ∧ y = .ok b ∧ Q a b

section
variable {ε α β γ δ : Type} {Q : α → β → Prop} {R : γ → δ → Prop} {x : Except ε α} {y : Except ε β}

theorem sameEnd_ok {a : α} {b : β} (h : Q a b) :
    SameEnd Q (.ok a : Except ε α) (.ok b : Except ε β) := .inr ⟨a, b, rfl, rfl, h⟩

theorem SameEnd.bind {f : α → Except ε γ} {g : β → Except ε δ} (h : SameEnd Q x y)
    (hf : ∀ a b, Q a b → SameEnd R (f a) (g b)) : SameEnd R (x >>= f) (y >>= g) := by
  rcases h with ⟨fault, rfl, rfl⟩ | ⟨a, b, rfl, rfl, hab⟩
  · exact .inl ⟨fault, rfl, rfl⟩
  · exact hf a b hab

theorem SameEnd.map {f : α → γ} {g : β → δ} (h : SameEnd Q x y)
    (hf : ∀ a b, Q a b → R (f a) (g b)) : SameEnd R (x.map f) (y.map g) := by
  rcases h with ⟨fault, rfl, rfl⟩ | ⟨a, b, rfl, rfl, hab⟩
  · exact .inl ⟨fault, rfl, rfl⟩
  · exact .inr ⟨f a, g b, rfl, rfl, hf a b hab⟩
end

theorem sameEnd_walkAll {walker walker' : Walker} {Q : Json → Json → Prop}
    {nodes nodes' : List (Path × Json)}
    (h : List.Forall₂ (fun c d => SameEnd (fun r r' => Q r.1 r'.1)
      (walker c.1 c.2) (walker' d.1 d.2)) nodes nodes') :
    SameEnd (fun r r' => List.Forall₂ Q r.1 r'.1) (walkAll walker nodes)
      (walkAll walker' nodes') := by
  induction h with
  | nil => exact sameEnd_ok .nil
  | @cons c d nodes nodes' hfirst _ ih =>
    obtain ⟨path, x⟩ := c
    obtain ⟨path', y⟩ := d
    rw [walkAll, walkAll]
    refine hfirst.bind fun r r' hr => ?_
    exact ih.bind fun rs rs' hrs => sameEnd_ok (.cons hr hrs)

/-- The visitor keeps matching nodes matching. -/
structure Paired (visitor : Visitor) (Given : Path → Json → Json → Prop)
    (Made : Json → Json → Prop) : Prop where
  leaf : ∀ path x y, Given path x y → (∀ fields, x ≠ .obj fields) →
    (∀ fields, y ≠ .obj fields) ∧ Made x y
  node : ∀ path fs y, Given path (.obj fs) y → ∃ gs, y = .obj gs ∧
    SameEnd (fun found found' =>
      List.Forall₂ (fun c d => c.1 = d.1 ∧ Given c.1 c.2 d.2)
        (children path (visitor.visit path found)) (children path (visitor.visit path found')) ∧
      ∀ new new', List.Forall₂ Kept (childValues (visitor.visit path found)) new →
        List.Forall₂ Kept (childValues (visitor.visit path found')) new' →
        List.Forall₂ Made new new' →
        Made (.obj (withChildren (visitor.visit path found) new))
          (.obj (withChildren (visitor.visit path found') new')))
      (foldNode fs) (foldNode gs)

theorem kept_of_walk {visitor : Visitor} {levels : Nat} {path : Path} {x : Json}
    {result : Json × List Visit} (h : walk visitor levels path x = .ok result) :
    Kept x result.1 := by
  by_cases hobj : ∃ fields, x = .obj fields
  · obtain ⟨fields, rfl⟩ := hobj
    cases levels with
    | zero =>
      rw [← Except.ok.inj h]
      exact .inl rfl
    | succ levels =>
      obtain ⟨found, results, _, hresult, _⟩ := walk_obj_eq_ok h
      exact .inr ⟨fields, _, rfl, hresult⟩
  · rw [walk_of_not_node _ _ _ fun fields heq => hobj ⟨fields, heq⟩] at h
    rw [← Except.ok.inj h]
    exact .inl rfl

theorem kept_of_walkAll {visitor : Visitor} {levels : Nat} {path : Path} {fields : Fields}
    {result : List Json × List Visit}
    (h : walkAll (walk visitor levels) (children path fields) = .ok result) :
    List.Forall₂ Kept (childValues fields) result.1 := by
  obtain ⟨results, hnew, _, hall⟩ := walkAll_eq_ok h
  rw [hnew, ← children_map_snd path, List.forall₂_map_left_iff, List.forall₂_map_right_iff]
  exact hall.imp fun _ _ hwalk => kept_of_walk hwalk

/-- The induction is on the levels of the first walk; the second needs as many as its own tree. -/
theorem Paired.walk {visitor : Visitor} {Given : Path → Json → Json → Prop}
    {Made : Json → Json → Prop} (h : Paired visitor Given Made) (hv : visitor.Shallow) {m n : Nat}
    {path : Path} {x y : Json} (hx : x.depth ≤ m) (hy : y.depth ≤ n) (hgiven : Given path x y) :
    SameEnd (fun r r' => Made r.1 r'.1) (Schema.walk visitor m path x)
      (Schema.walk visitor n path y) := by
  have hstays : ∀ {m n path x y}, Given path x y → (∀ fields, x ≠ .obj fields) →
      SameEnd (fun r r' => Made r.1 r'.1) (Schema.walk visitor m path x)
        (Schema.walk visitor n path y) := by
    intro m n path x y hgiven hno
    obtain ⟨hno', hmade⟩ := h.leaf path x y hgiven hno
    rw [walk_of_not_node _ _ _ hno, walk_of_not_node _ _ _ hno']
    exact sameEnd_ok hmade
  induction m generalizing n path x y with
  | zero =>
    refine hstays hgiven ?_
    rintro fields rfl
    simp [Json.depth] at hx
  | succ m ih =>
    by_cases hobj : ∃ fs, x = .obj fs
    · obtain ⟨fs, rfl⟩ := hobj
      obtain ⟨gs, rfl, hfold⟩ := h.node path fs y hgiven
      rw [Json.depth] at hx hy
      obtain ⟨n, rfl⟩ : ∃ k, n = k + 1 := ⟨n - 1, by omega⟩
      rcases hfold with ⟨fault, hfs, hgs⟩ | ⟨found, found', hfs, hgs, hchildren, hmade⟩
      · simp only [Schema.walk, walkNode, hfs, hgs]
        exact .inl ⟨fault, rfl, rfl⟩
      rw [walk_of_foldNode hfs, walk_of_foldNode hgs]
      have hbelow : SameEnd (fun r r' => List.Forall₂ Made r.1 r'.1)
          (walkAll (Schema.walk visitor m) (children path (visitor.visit path found)))
          (walkAll (Schema.walk visitor n) (children path (visitor.visit path found'))) := by
        refine sameEnd_walkAll (List.forall₂_iff_zip.2 ⟨hchildren.length_eq, fun {c d} hzip => ?_⟩)
        obtain ⟨hpath, hgiven⟩ := List.forall₂_zip hchildren hzip
        obtain ⟨hc, hd⟩ := List.of_mem_zip hzip
        rw [← hpath]
        exact ih (Nat.le_trans (hv _ _ _ hfs c hc) (Nat.le_of_succ_le_succ hx))
          (Nat.le_trans (hv _ _ _ hgs d hd) (Nat.le_of_succ_le_succ hy)) hgiven
      rcases hbelow with ⟨fault, hm, hn⟩ | ⟨r, r', hm, hn, hr⟩
      · rw [hm, hn]
        exact .inl ⟨fault, rfl, rfl⟩
      · rw [hm, hn]
        exact sameEnd_ok (hmade r.1 r'.1 (kept_of_walkAll hm) (kept_of_walkAll hn) hr)
    · exact hstays hgiven fun fields heq => hobj ⟨fields, heq⟩

end SchemaDecl.Schema
