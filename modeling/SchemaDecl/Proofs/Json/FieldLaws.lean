import Mathlib.Data.List.Basic
import SchemaDecl.Json.Fields

/-! Laws of ordered fields. Writing a value that is there already and erasing a
key that is not there change nothing, which is what makes rewriting steps fixed
points of themselves. Fields are `Separate` if no two keys are the same; fields
built from a list always are, and building from separate fields gives them back
as they were. -/

namespace SchemaDecl.Fields

theorem value_congr {fields fields' : Fields} {key : Key} (h : get? fields key = get? fields' key) :
    value fields key = value fields' key := by
  rw [value, h, value]

theorem value_of_get? {fields : Fields} {key : Key} {v : Json} (h : get? fields key = some v) :
    value fields key = v := by
  rw [value, h, Option.getD_some]

theorem get?_of_value {fields : Fields} {key : Key} {v : Json} (h : value fields key = v)
    (hv : v ≠ .null) : get? fields key = some v := by
  unfold value at h
  cases hg : get? fields key with
  | none => rw [hg] at h; exact absurd h.symm hv
  | some w => rw [hg] at h; exact congrArg some h

theorem value_set_same (fields : Fields) {k l : Key} (v : Json) (h : k.canon = l.canon) :
    value (set fields k v) l = v := value_of_get? (get?_set_same fields v h)

theorem value_set_other (fields : Fields) {k l : Key} (v : Json) (h : k.canon ≠ l.canon) :
    value (set fields k v) l = value fields l := by
  rw [value, get?_set_other fields v h, value]

/-- Writing what is there changes nothing. -/
theorem set_of_get? {fields : Fields} {key : Key} {v : Json} (h : get? fields key = some v) :
    set fields key v = fields := by
  induction fields with
  | nil => cases h
  | cons f rest ih =>
    simp only [get?] at h
    simp only [set]
    split at h
    · rename_i hk
      rw [if_pos hk, ← Option.some.inj h]
    · rename_i hk
      rw [if_neg hk, ih h]

theorem set_of_value {fields : Fields} {key : Key} {v : Json} (h : value fields key = v)
    (hv : v ≠ .null) : set fields key v = fields := set_of_get? (get?_of_value h hv)

/-- Erasing what is not there changes nothing. -/
theorem erase_of_get?_none {fields : Fields} {key : Key} (h : get? fields key = none) :
    erase fields key = fields := by
  induction fields with
  | nil => rfl
  | cons f rest ih =>
    simp only [get?] at h
    split at h
    · cases h
    · rename_i hk
      have hrest := ih h
      rw [erase, List.filter_eq_self] at hrest ⊢
      intro g hg
      rcases List.mem_cons.1 hg with rfl | hg
      · simpa using hk
      · exact hrest g hg

theorem eraseAll_of_get?_none {fields : Fields} {keys : List Key}
    (h : ∀ key ∈ keys, get? fields key = none) : eraseAll fields keys = fields := by
  induction keys with
  | nil => rfl
  | cons key keys ih =>
    rw [eraseAll, List.foldl_cons, erase_of_get?_none (h key List.mem_cons_self), ← eraseAll]
    exact ih fun l hl => h l (List.mem_cons_of_mem _ hl)

theorem get?_eraseAll_other (fields : Fields) {keys : List Key} {l : Key}
    (h : ∀ key ∈ keys, key.canon ≠ l.canon) : get? (eraseAll fields keys) l = get? fields l := by
  induction keys generalizing fields with
  | nil => rfl
  | cons key keys ih =>
    rw [eraseAll, List.foldl_cons, ← eraseAll, ih _ fun k hk => h k (List.mem_cons_of_mem _ hk),
      get?_erase_other fields (h key List.mem_cons_self)]

theorem value_eraseAll_other (fields : Fields) {keys : List Key} {l : Key}
    (h : ∀ key ∈ keys, key.canon ≠ l.canon) : value (eraseAll fields keys) l = value fields l := by
  rw [value, get?_eraseAll_other fields h, value]

theorem get?_erase_none {fields : Fields} (key : Key) {l : Key} (h : get? fields l = none) :
    get? (erase fields key) l = none := by
  by_cases hk : key.canon = l.canon
  · exact get?_erase_same fields hk
  · rw [get?_erase_other fields hk, h]

theorem get?_eraseAll_same (fields : Fields) {keys : List Key} {l : Key} (h : l ∈ keys) :
    get? (eraseAll fields keys) l = none := by
  have keeps : ∀ (keys : List Key) (fields : Fields), get? fields l = none →
      get? (eraseAll fields keys) l = none := by
    intro keys
    induction keys with
    | nil => exact fun _ hf => hf
    | cons key keys ih => exact fun fields hf => ih _ (get?_erase_none key hf)
  induction keys generalizing fields with
  | nil => cases h
  | cons key keys ih =>
    rw [eraseAll, List.foldl_cons, ← eraseAll]
    rcases List.mem_cons.1 h with rfl | h
    · exact keeps keys _ (get?_erase_same fields rfl)
    · exact ih _ h

/-! What is found was among the fields. -/

theorem mem_of_get? {fields : Fields} {key : Key} {v : Json} (h : get? fields key = some v) :
    ∃ k, (k, v) ∈ fields := by
  induction fields with
  | nil => cases h
  | cons f rest ih =>
    simp only [get?] at h
    split at h
    · exact ⟨f.1, by rw [← Option.some.inj h]; exact List.mem_cons_self⟩
    · obtain ⟨k, hk⟩ := ih h
      exact ⟨k, List.mem_cons_of_mem _ hk⟩

theorem depth_value_le (fields : Fields) (key : Key) :
    (value fields key).depth ≤ Json.depthFields fields := by
  unfold value
  cases h : get? fields key with
  | none => exact Nat.zero_le _
  | some v =>
    obtain ⟨k, hk⟩ := mem_of_get? h
    exact Json.depth_le_depthFields hk

/-- A field after a write is an old one, or it holds the new value under its old or the new key. -/
theorem mem_set {fields : Fields} {key : Key} {v : Json} {f : Key × Json}
    (h : f ∈ set fields key v) : f ∈ fields ∨ f.2 = v ∧ (f.1 = key ∨ ∃ w, (f.1, w) ∈ fields) := by
  induction fields with
  | nil =>
    rw [set, List.mem_singleton] at h
    exact .inr ⟨by rw [h], .inl (by rw [h])⟩
  | cons g rest ih =>
    simp only [set] at h
    split at h
    · rcases List.mem_cons.1 h with rfl | h
      · exact .inr ⟨rfl, .inr ⟨g.2, List.mem_cons_self⟩⟩
      · exact .inl (List.mem_cons_of_mem _ h)
    · rcases List.mem_cons.1 h with rfl | h
      · exact .inl List.mem_cons_self
      · rcases ih h with h | ⟨hv, hk | ⟨w, hw⟩⟩
        · exact .inl (List.mem_cons_of_mem _ h)
        · exact .inr ⟨hv, .inl hk⟩
        · exact .inr ⟨hv, .inr ⟨w, List.mem_cons_of_mem _ hw⟩⟩

/-- Each field of an update has its key and its value from one of the two sides. -/
theorem mem_update {fields entries : Fields} {f : Key × Json} (h : f ∈ update fields entries) :
    (∃ g ∈ fields ++ entries, g.1 = f.1) ∧ ∃ g ∈ fields ++ entries, g.2 = f.2 := by
  induction entries generalizing fields with
  | nil => exact ⟨⟨f, by simpa [update] using h, rfl⟩, ⟨f, by simpa [update] using h, rfl⟩⟩
  | cons e rest ih =>
    have hrest : f ∈ update (set fields e.1 e.2) rest := h
    obtain ⟨⟨g, hg, hgk⟩, ⟨g', hg', hgv⟩⟩ := ih hrest
    have back : ∀ x ∈ set fields e.1 e.2 ++ rest,
        (∃ y ∈ fields ++ e :: rest, y.1 = x.1) ∧ ∃ y ∈ fields ++ e :: rest, y.2 = x.2 := by
      intro x hx
      rcases List.mem_append.1 hx with hx | hx
      · rcases mem_set hx with hx | ⟨hv, hk | ⟨w, hw⟩⟩
        · exact ⟨⟨x, by simp [hx], rfl⟩, ⟨x, by simp [hx], rfl⟩⟩
        · exact ⟨⟨e, by simp, hk.symm⟩, ⟨e, by simp, hv.symm⟩⟩
        · exact ⟨⟨_, List.mem_append_left _ hw, rfl⟩, ⟨e, by simp, hv.symm⟩⟩
      · exact ⟨⟨x, by simp [hx], rfl⟩, ⟨x, by simp [hx], rfl⟩⟩
    obtain ⟨y, hy, hyk⟩ := (back g hg).1
    obtain ⟨z, hz, hzv⟩ := (back g' hg').2
    exact ⟨⟨y, hy, hyk.trans hgk⟩, ⟨z, hz, hzv.trans hgv⟩⟩

theorem mem_ofList {entries : Fields} {f : Key × Json} (h : f ∈ ofList entries) :
    (∃ g ∈ entries, g.1 = f.1) ∧ ∃ g ∈ entries, g.2 = f.2 := by
  have hupdate : f ∈ update [] entries := h
  simpa using mem_update hupdate

/-! Separate keys. -/

def Separate (fields : Fields) : Prop := fields.Pairwise fun f g => f.1.same g.1 = false

theorem separate_set {fields : Fields} (h : Separate fields) (key : Key) (v : Json) :
    Separate (set fields key v) := by
  induction fields with
  | nil => exact List.pairwise_singleton _ _
  | cons f rest ih =>
    obtain ⟨hf, hrest⟩ := List.pairwise_cons.1 h
    simp only [set]
    split
    · exact List.pairwise_cons.2 ⟨hf, hrest⟩
    · rename_i hk
      refine List.pairwise_cons.2 ⟨fun g hg => ?_, ih hrest⟩
      rcases mem_set hg with hg | ⟨_, hkey | ⟨w, hw⟩⟩
      · exact hf g hg
      · rw [hkey]
        simpa using hk
      · exact hf (g.1, w) hw

theorem separate_update {fields : Fields} (h : Separate fields) (entries : Fields) :
    Separate (update fields entries) := by
  induction entries generalizing fields with
  | nil => exact h
  | cons e rest ih => exact ih (separate_set h e.1 e.2)

theorem separate_ofList (entries : Fields) : Separate (ofList entries) :=
  separate_update List.Pairwise.nil entries

theorem set_of_fresh {fields : Fields} {key : Key} (h : ∀ f ∈ fields, f.1.same key = false)
    (v : Json) : set fields key v = fields ++ [(key, v)] := by
  induction fields with
  | nil => rfl
  | cons f rest ih =>
    have hf : ¬ f.1.same key = true := by simp [h f List.mem_cons_self]
    rw [set, if_neg hf, ih fun g hg => h g (List.mem_cons_of_mem _ hg), List.cons_append]

theorem update_of_separate {fields entries : Fields} (h : Separate (fields ++ entries)) :
    update fields entries = fields ++ entries := by
  induction entries generalizing fields with
  | nil => rw [List.append_nil]; rfl
  | cons e rest ih =>
    have hfresh : ∀ f ∈ fields, f.1.same e.1 = false := fun f hf =>
      (List.pairwise_append.1 h).2.2 f hf e List.mem_cons_self
    have happend : fields ++ [e] ++ rest = fields ++ e :: rest := by simp
    rw [update, List.foldl_cons, ← update, set_of_fresh hfresh, ih (by rwa [happend]), happend]

/-- Fields with separate keys are built as they are. -/
theorem ofList_of_separate {entries : Fields} (h : Separate entries) :
    ofList entries = entries := by
  have happend : Separate ([] ++ entries) := h
  exact update_of_separate happend

theorem get?_of_mem {fields : Fields} (h : Separate fields) {f : Key × Json} (hf : f ∈ fields) :
    get? fields f.1 = some f.2 := by
  induction fields with
  | nil => cases hf
  | cons g rest ih =>
    obtain ⟨hg, hrest⟩ := List.pairwise_cons.1 h
    rcases List.mem_cons.1 hf with rfl | hf
    · rw [get?, if_pos (Key.same_refl _)]
    · rw [get?, hg f hf, if_neg (by simp), ih hrest hf]

/-! Replacing values. -/

theorem withValues_fst (fields : Fields) (new : List Json) :
    (withValues fields new).map Prod.fst = fields.map Prod.fst := by
  induction fields generalizing new with
  | nil => cases new <;> rfl
  | cons f rest ih =>
    cases new with
    | nil => rfl
    | cons v vs => simp only [withValues, List.map_cons, ih vs]

theorem withValues_snd {fields : Fields} {new : List Json} (h : new.length = fields.length) :
    (withValues fields new).map Prod.snd = new := by
  induction fields generalizing new with
  | nil =>
    rw [List.length_eq_zero_iff.1 h]
    rfl
  | cons f rest ih =>
    cases new with
    | nil => simp at h
    | cons v vs => simp only [withValues, List.map_cons, ih (Nat.succ.inj h)]

theorem withValues_self (fields : Fields) : withValues fields (fields.map Prod.snd) = fields := by
  induction fields with
  | nil => rfl
  | cons f rest ih => simp only [List.map_cons, withValues, ih]

theorem separate_iff_keys {fields : Fields} :
    Separate fields ↔ (fields.map Prod.fst).Pairwise fun k l => k.same l = false := by
  rw [Separate, List.pairwise_map]

theorem nodup_of_separate {fields : Fields} (h : Separate fields) :
    (fields.map Prod.fst).Nodup := by
  rw [separate_iff_keys] at h
  refine h.imp fun {k l} hkl heq => ?_
  rw [heq, Key.same_refl] at hkl
  cases hkl

theorem separate_withValues {fields : Fields} (h : Separate fields) (new : List Json) :
    Separate (withValues fields new) := by
  rw [separate_iff_keys, withValues_fst, ← separate_iff_keys]
  exact h

end SchemaDecl.Fields
