import SchemaDecl.Files.Tree
import SchemaDecl.Proofs.Inversion

/-! Where locations lead. A location that can be followed leads to its collapsed
form, whatever the tree holds besides. Following it only asks for nodes that are
there, so more nodes in a tree change the answer only where one was missing. -/

namespace SchemaDecl.Files

namespace Location

/-- One segment further. -/
def onward (done : Location) (segment : String) : Location :=
  if segment = ".." then done.dropLast
  else if segment.isEmpty then done
  else done ++ [segment]

theorem collapse_eq (l : Location) : l.collapse = l.foldl onward [] := rfl

end Location

namespace Tree

variable {tree tree' : Tree} {l place : Location} {segment : String}

theorem node?_erase_same (tree : Tree) (h : l ≠ []) : (tree.erase l).node? l = none := by
  rw [node?, List.isEmpty_eq_false_iff.2 h, if_neg Bool.false_ne_true, List.lookup_eq_none_iff]
  intro entry hentry
  have hne := (List.mem_filter.1 hentry).2
  rw [bne_iff_ne] at hne ⊢
  exact hne.symm

theorem mem_of_node? (h : (tree.node? l).isSome = true) (hl : l ≠ []) :
    l ∈ tree.entries.map Prod.fst := by
  rw [node?, List.isEmpty_eq_false_iff.2 hl, if_neg Bool.false_ne_true] at h
  refine Decidable.byContradiction fun hno => ?_
  have hnone : tree.entries.lookup l = none := by
    rw [List.lookup_eq_none_iff]
    intro entry hentry
    rw [bne_iff_ne]
    rintro rfl
    exact hno (List.mem_map_of_mem hentry)
  rw [hnone] at h
  cases h

/-! Steps. -/

theorem step_eq_ok (h : tree.step l segment = .ok place) :
    tree.node? l = some .directory ∧ place = l.onward segment := by
  unfold step at h
  split at h
  · cases h
  · cases h
  · rename_i hnode
    refine ⟨hnode, ?_⟩
    unfold Location.onward
    split at h
    · rw [if_pos ‹_›]
      exact (Except.ok.inj h).symm
    · rw [if_neg ‹_›]
      split at h
      · rw [if_pos ‹_›]
        exact (Except.ok.inj h).symm
      · rw [if_neg ‹_›]
        split at h
        · cases h
        · exact (Except.ok.inj h).symm

theorem resolve_eq_ok :
    tree.resolve l = .ok place ↔ l.isPossible = true ∧ l.foldlM tree.step [] = .ok place := by
  unfold resolve
  split
  · rename_i h
    simp [h]
  · rename_i h
    simp [h]

theorem foldlM_step_eq_ok {start : Location} (h : l.foldlM tree.step start = .ok place) :
    place = l.foldl Location.onward start := by
  induction l generalizing start with
  | nil => exact (Except.ok.inj h).symm
  | cons segment rest ih =>
    rw [List.foldlM_cons, Inversion.bind_eq_ok] at h
    obtain ⟨next, hnext, hrest⟩ := h
    rw [List.foldl_cons, ← (step_eq_ok hnext).2]
    exact ih hrest

/-- A location leads to its collapsed form, if it leads anywhere. -/
theorem eq_collapse_of_resolve (h : tree.resolve l = .ok place) : place = l.collapse := by
  rw [Location.collapse_eq]
  exact foldlM_step_eq_ok (resolve_eq_ok.1 h).2

theorem resolve_append (h : tree.resolve (l ++ [segment]) = .ok place) :
    ∃ directory, tree.resolve l = .ok directory ∧ tree.step directory segment = .ok place := by
  obtain ⟨hpossible, h⟩ := resolve_eq_ok.1 h
  rw [List.foldlM_append, Inversion.bind_eq_ok] at h
  obtain ⟨directory, hdirectory, hstep⟩ := h
  rw [Location.isPossible, List.all_append, Bool.and_eq_true] at hpossible
  refine ⟨directory, resolve_eq_ok.2 ⟨hpossible.1, hdirectory⟩, ?_⟩
  simpa using hstep

/-! More nodes. -/

/-- All that is in the first tree is in the second. -/
def Extends (tree tree' : Tree) : Prop :=
  ∀ l node, tree.node? l = some node → tree'.node? l = some node

theorem Extends.step_eq (h : Extends tree tree') (hstep : tree.step l segment ≠ .error .missing) :
    tree'.step l segment = tree.step l segment := by
  cases hnode : tree.node? l with
  | none =>
    rw [step, hnode] at hstep
    exact absurd rfl hstep
  | some node => rw [step, step, hnode, h l node hnode]

/-- Unless a node is missing on the way, a location leads to the same end in the larger tree. -/
theorem Extends.resolve_eq (h : Extends tree tree') (hresolve : tree.resolve l ≠ .error .missing) :
    tree'.resolve l = tree.resolve l := by
  have hall : ∀ start, l.foldlM tree.step start ≠ .error .missing →
      l.foldlM tree'.step start = l.foldlM tree.step start := by
    clear hresolve
    induction l with
    | nil => exact fun _ _ => rfl
    | cons segment rest ih =>
      intro start hfold
      rw [List.foldlM_cons] at hfold
      have hstep : tree.step start segment ≠ .error .missing := by
        intro hmissing
        rw [hmissing] at hfold
        exact hfold rfl
      rw [List.foldlM_cons, List.foldlM_cons, h.step_eq hstep]
      cases hnext : tree.step start segment with
      | error fault => rfl
      | ok next =>
        rw [hnext] at hfold
        exact ih next hfold
  unfold resolve at hresolve ⊢
  split
  · rename_i hpossible
    rw [if_pos hpossible] at hresolve
    exact hall [] hresolve
  · rfl

end Tree

end SchemaDecl.Files
