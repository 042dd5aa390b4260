import SchemaDecl.Proofs.Schema.PropertyForms

/-! New children in the places of old ones. They stand under the same property
names in the same order, as one item or as so many, and as so many members of each
combinator. What is no node stays as it was, under every one of these keywords. -/

namespace SchemaDecl.Schema

theorem forall₂_of_append {α β : Type} {R : α → β → Prop} {as bs : List α} {cs ds : List β}
    (h : List.Forall₂ R (as ++ bs) (cs ++ ds)) (hlength : as.length = cs.length) :
    List.Forall₂ R as cs ∧ List.Forall₂ R bs ds := by
  have htake := List.forall₂_take as.length h
  have hdrop := List.forall₂_drop as.length h
  rw [List.take_left, hlength, List.take_left] at htake
  rw [List.drop_left, hlength, List.drop_left] at hdrop
  exact ⟨htake, hdrop⟩

theorem forall₂_of_flatMap {α β γ : Type} {R : β → γ → Prop} {keys : List α} {f : α → List β}
    {g : α → List γ} (hlength : ∀ key ∈ keys, (f key).length = (g key).length)
    (h : List.Forall₂ R (keys.flatMap f) (keys.flatMap g)) {key : α} (hkey : key ∈ keys) :
    List.Forall₂ R (f key) (g key) := by
  induction keys with
  | nil => cases hkey
  | cons first keys ih =>
    rw [List.flatMap_cons, List.flatMap_cons] at h
    obtain ⟨hfirst, hrest⟩ := forall₂_of_append h (hlength first List.mem_cons_self)
    rcases List.mem_cons.1 hkey with rfl | hkey
    · exact hfirst
    · exact ih (fun k hk => hlength k (List.mem_cons_of_mem _ hk)) hrest hkey

theorem sameKeys_withValues {ps : Fields} {new : List Json}
    (h : List.Forall₂ Kept (ps.map Prod.snd) new) :
    List.Forall₂ (fun p q => p.1 = q.1 ∧ Kept p.2 q.2) ps (Fields.withValues ps new) := by
  induction ps generalizing new with
  | nil => cases h; exact .nil
  | cons p ps ih =>
    cases h with
    | cons hfirst hrest => exact .cons ⟨rfl, hfirst⟩ (ih hrest)

section
variable {fields : Fields} {new : List Json} (h : List.Forall₂ Kept (childValues fields) new)
include h

theorem kept_properties :
    List.Forall₂ Kept ((properties fields).map Prod.snd) (new.take (properties fields).length) := by
  have hnow := List.forall₂_take (properties fields).length h
  rwa [childValues, List.take_left' (List.length_map _)] at hnow

theorem rel_properties_withChildren : Option.Rel (SameKeys Kept) (Fields.get? fields "properties")
    (Fields.get? (withChildren fields new) "properties") := by
  rw [withChildren_eq, get?_memberSteps_other _ _ (by decide), get?_withItems_other _ _ (by decide)]
  cases hv : Fields.value fields "properties" with
  | obj ps =>
    have hkept := kept_properties h
    simp only [properties, hv] at hkept
    simp only [withProperties, properties, hv, Fields.get?_set_same fields _ rfl,
      Fields.get?_of_value hv (by simp)]
    exact .some (.obj (sameKeys_withValues hkept))
  | _ =>
    rw [withProperties_of_not_obj _ (by simp [hv])]
    cases hget : Fields.get? fields "properties" with
    | none => exact .none
    | some v =>
      rw [Fields.value_of_get? hget] at hv
      exact .some (.other (by simp [hv]))

theorem rel_items_withChildren : Option.Rel (OneOrList Kept) (Fields.get? fields "items")
    (Fields.get? (withChildren fields new) "items") := by
  have hkept := kept_items h
  have hsame := get?_withProperties_other fields (new.take (properties fields).length)
    (l := "items") (by decide)
  rw [withChildren_eq, get?_memberSteps_other _ _ (by decide), ← hsame]
  generalize withProperties fields (new.take (properties fields).length) = before at hkept
  generalize (new.drop (properties fields).length).take (items fields).length = now at hkept
  by_cases hs : IsSingle (Fields.value before "items")
  · rw [items_of_single hs] at hkept
    obtain ⟨y, rfl, -, -⟩ := value_withItems_of_single hs (items_of_single hs ▸ hkept)
    rw [withItems_of_single hs, Fields.get?_set_same _ _ rfl, Fields.get?_of_value rfl hs.1]
    exact .some (.one (List.forall₂_cons.1 hkept).1)
  · cases hv : Fields.value before "items" with
    | null =>
      simp only [withItems, hv]
      cases Fields.get? before "items" with
      | none => exact .none
      | some v => exact .some (.one (.inl rfl))
    | arr old =>
      simp only [items, hv] at hkept
      simp only [withItems, hv, Fields.get?_set_same before _ rfl,
        Fields.get?_of_value hv (by simp)]
      exact .some (.list hkept)
    | _ => exact absurd ⟨by simp, by simp⟩ (hv ▸ hs)

theorem kept_members {key : Key} (hkey : key ∈ combinators) :
    List.Forall₂ Kept (members fields key) (members (withChildren fields new) key) := by
  have hproperties : ((properties fields).map Prod.snd).length =
      ((properties (withChildren fields new)).map Prod.snd).length := by
    have hkeys := congrArg List.length (Fields.withValues_fst (properties fields)
      (new.take (properties fields).length))
    rw [← properties_withChildren] at hkeys
    simpa using hkeys.symm
  have hall := h
  rw [← childValues_withChildren h, childValues, childValues] at hall
  have hrest := (forall₂_of_append hall hproperties).2
  exact forall₂_of_flatMap (fun k hk => (length_members_withChildren h hk).symm)
    (forall₂_of_append hrest (length_items_withChildren h).symm).2 hkey

theorem rel_members_withChildren {key : Key} (hkey : key ∈ combinators) :
    Option.Rel (Entrywise Kept) (Fields.get? fields key)
      (Fields.get? (withChildren fields new) key) := by
  obtain ⟨now, hnow, heq⟩ := get?_withChildren_combinator h hkey
  have hkept := kept_members h hkey
  rw [members_congr heq, members_withMembers hnow] at hkept
  rw [heq]
  cases hv : Fields.value fields key with
  | arr old =>
    simp only [members, hv] at hkept
    simp only [withMembers, hv, Fields.get?_set_same fields _ rfl,
      Fields.get?_of_value hv (by simp)]
    exact .some (.list hkept)
  | _ =>
    simp only [withMembers, hv]
    cases hget : Fields.get? fields key with
    | none => exact .none
    | some v =>
      rw [Fields.value_of_get? hget] at hv
      exact .some (.other (by simp [hv]))

/-- A value with no children in it stays. -/
theorem value_withChildren_leaf {key : Key} (hkey : key ∈ childKeys)
    (harr : ∀ xs, Fields.value fields key ≠ .arr xs)
    (hobj : ∀ inner, Fields.value fields key ≠ .obj inner) :
    Fields.value (withChildren fields new) key = Fields.value fields key := by
  simp only [childKeys, List.mem_cons] at hkey
  rcases hkey with rfl | rfl | hkey
  · have hrel := rel_value (.other (by simp)) (rel_properties_withChildren h)
    generalize Fields.value (withChildren fields new) "properties" = w at hrel ⊢
    generalize Fields.value fields "properties" = v at hrel hobj ⊢
    cases hrel with
    | obj _ => exact absurd rfl (hobj _)
    | other _ => rfl
  · have hrel := rel_value (.one (.inl rfl)) (rel_items_withChildren h)
    generalize Fields.value (withChildren fields new) "items" = w at hrel ⊢
    generalize Fields.value fields "items" = v at hrel harr hobj ⊢
    cases hrel with
    | one hkept =>
      rcases hkept with heq | ⟨_, _, hnode, _⟩
      · exact heq.symm
      · exact absurd hnode (hobj _)
    | list _ => exact absurd rfl (harr _)
  · have hrel := rel_value (.other (by simp)) (rel_members_withChildren h hkey)
    generalize Fields.value (withChildren fields new) key = w at hrel ⊢
    generalize Fields.value fields key = v at hrel harr ⊢
    cases hrel with
    | list _ => exact absurd rfl (harr _)
    | other _ => rfl
end

end SchemaDecl.Schema
