import SchemaDecl.Proofs.Schema.Folding

/-! The keywords of a node and their order. Folding, normalizing and the walk
write only where something is written already, and what they leave out are the
leftovers of references; so the keywords of a normalized root are known from the
schema alone. -/

namespace SchemaDecl

namespace Fields

theorem keys_set {fields : Fields} {key : Key} (v : Json) (h : value fields key ≠ .null) :
    (set fields key v).map Prod.fst = fields.map Prod.fst := by
  induction fields with
  | nil => exact absurd rfl h
  | cons f rest ih =>
    simp only [set]
    split
    · rfl
    · rename_i hother
      rw [value, get?, if_neg hother, ← value] at h
      rw [List.map_cons, List.map_cons, ih h]

theorem keys_erase (fields : Fields) (key : Key) :
    (erase fields key).map Prod.fst = (fields.map Prod.fst).filter fun k => !k.same key := by
  rw [erase, List.filter_map]
  rfl

theorem keys_eraseAll_congr {fs gs : Fields} (h : fs.map Prod.fst = gs.map Prod.fst)
    (keys : List Key) : (eraseAll fs keys).map Prod.fst = (eraseAll gs keys).map Prod.fst := by
  induction keys generalizing fs gs with
  | nil => exact h
  | cons key keys ih => exact ih (by rw [keys_erase, keys_erase, h])
end Fields

namespace Schema

theorem keys_foldNode {fields found : Fields} (h : foldNode fields = .ok found) :
    found.map Prod.fst = fields.map Prod.fst := by
  unfold foldNode at h
  split at h
  · rename_i entries hentries
    rw [Inversion.bind_eq_ok] at h
    obtain ⟨folded, _, h⟩ := h
    rw [Inversion.pure_eq_ok] at h
    rw [← h, Fields.keys_set _ (by simp [hentries])]
  · rw [Except.ok.inj h]

theorem keys_withMembers (fields : Fields) (key : Key) (new : List Json) :
    (withMembers fields key new).map Prod.fst = fields.map Prod.fst := by
  unfold withMembers
  split
  · rename_i hvalue
    exact Fields.keys_set _ (by simp [hvalue])
  · rfl

theorem keys_memberSteps (keys : List Key) (state : Fields × List Json) :
    (keys.foldl memberStep state).1.map Prod.fst = state.1.map Prod.fst := by
  induction keys generalizing state with
  | nil => rfl
  | cons key keys ih => rw [List.foldl_cons, ih, memberStep, keys_withMembers]

theorem keys_withChildren (fields : Fields) (new : List Json) :
    (withChildren fields new).map Prod.fst = fields.map Prod.fst := by
  have hproperties : ∀ (fields : Fields) (new : List Json),
      (withProperties fields new).map Prod.fst = fields.map Prod.fst := by
    intro fields new
    unfold withProperties
    split
    · rename_i hvalue
      exact Fields.keys_set _ (by simp [hvalue])
    · rfl
  have hitems : ∀ (fields : Fields) (new : List Json),
      (withItems fields new).map Prod.fst = fields.map Prod.fst := by
    intro fields new
    unfold withItems
    split
    · rfl
    · rename_i hvalue
      exact Fields.keys_set _ (by simp [hvalue])
    · rename_i hnull _
      exact Fields.keys_set _ hnull
    · rfl
  rw [withChildren_eq, keys_memberSteps, hitems, hproperties]

namespace Normal

theorem keys_withCanonicalType (table fields : Fields) :
    (withCanonicalType table fields).map Prod.fst = fields.map Prod.fst := by
  dsimp only [withCanonicalType]
  split
  · rename_i htruthy
    exact Fields.keys_set _ fun hnull => by simp [hnull, Json.truthy] at htruthy
  · rfl

theorem keys_withOneItem (fields : Fields) :
    (withOneItem fields).map Prod.fst = fields.map Prod.fst := by
  unfold withOneItem
  split
  · rename_i hitems
    exact Fields.keys_set _ (by simp [hitems])
  · rfl

theorem keys_withStrippedNames (fields : Fields) :
    (withStrippedNames fields).map Prod.fst = fields.map Prod.fst := by
  have hrequired : ∀ fields : Fields,
      (withStrippedRequired fields).map Prod.fst = fields.map Prod.fst := by
    intro fields
    unfold withStrippedRequired
    split
    · rename_i hvalue
      exact Fields.keys_set _ (by simp [hvalue])
    · rfl
  unfold withStrippedNames
  split
  · rename_i hvalue
    rw [hrequired, Fields.keys_set _ (by simp [hvalue])]
  · rfl

/-- The keywords of a normalized root are those of the schema, without references. -/
theorem keys_normalize {table fields : Fields} {result : Json}
    (h : normalize table (.obj fields) = .ok result) :
    ∃ normal, result = .obj normal ∧
      normal.map Prod.fst = (Fields.eraseAll fields ["$ref", "$$ref"]).map Prod.fst := by
  obtain ⟨visits, hwalk⟩ := normalize_eq_ok.1 h
  obtain ⟨found, results, hfold, hresult, _⟩ := walk_obj_eq_ok hwalk
  refine ⟨_, hresult, ?_⟩
  rw [keys_withChildren, visit_eq, node, keys_withStrippedNames, keys_withOneItem,
    keys_withCanonicalType]
  exact Fields.keys_eraseAll_congr (keys_foldNode hfold) _
end Normal

end Schema

end SchemaDecl
