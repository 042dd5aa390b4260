import Mathlib.Data.List.Forall2
import Mathlib.Data.List.Nodup
import SchemaDecl.Proofs.Json.FieldLaws

/-! Updates of ordered dictionaries. The keys stand in the order in which they first
came up, and under each of them the last entry counts. -/

namespace SchemaDecl.Fields

/-- After an update the last entry under a key counts. -/
theorem get?_update (fields entries : Fields) (key : Key) :
    get? (update fields entries) key =
      ((entries.filter fun e => e.1.same key).getLast?.map Prod.snd).or (get? fields key) := by
  induction entries generalizing fields with
  | nil => rfl
  | cons e rest ih =>
    rw [update, List.foldl_cons, ← update, ih, List.filter_cons]
    split
    · rename_i hkey
      rw [get?_set_same fields e.2 (Key.same_iff.1 hkey), List.getLast?_cons]
      cases (rest.filter fun e => e.1.same key).getLast? <;> rfl
    · rename_i hkey
      rw [get?_set_other fields e.2 fun h => hkey (Key.same_iff.2 h)]

theorem get?_ofList (entries : Fields) (key : Key) :
    get? (ofList entries) key =
      (entries.filter fun e => e.1.same key).getLast?.map Prod.snd := by
  rw [ofList, get?_update, get?, Option.or_none]

/-- A field that was built stands for the last of the entries under its key. -/
theorem exists_last_of_mem_ofList {entries : Fields} {f : Key × Json} (h : f ∈ ofList entries) :
    ∃ before e after, entries = before ++ e :: after ∧ e.1.same f.1 = true ∧ e.2 = f.2 ∧
      ∀ later ∈ after, later.1.same f.1 = false := by
  have hget := get?_of_mem (separate_ofList entries) h
  rw [get?_ofList] at hget
  obtain ⟨e, hlast, hvalue⟩ := Option.map_eq_some_iff.1 hget
  obtain ⟨front, hfront⟩ := List.getLast?_eq_some_iff.1 hlast
  obtain ⟨before, rest, rfl, _, hrest⟩ := List.filter_eq_append_iff.1 hfront
  obtain ⟨between, after, rfl, _, hkey, hafter⟩ := List.filter_eq_cons_iff.1 hrest
  refine ⟨before ++ between, e, after, by simp, hkey, hvalue, fun later hlater => ?_⟩
  simpa using List.filter_eq_nil_iff.1 hafter later hlater

/-! Keys that are texts. -/

theorem eraseDups_of_nodup {names : List String} (h : names.Nodup) : names.eraseDups = names := by
  induction names with
  | nil => rfl
  | cons name rest ih =>
    obtain ⟨hname, hrest⟩ := List.nodup_cons.1 h
    have hfilter : rest.filter (fun other => !other == name) = rest := by
      rw [List.filter_eq_self]
      rintro other hother
      simpa using fun heq : other = name => hname (heq ▸ hother)
    rw [List.eraseDups_cons, hfilter, ih hrest]

theorem eraseDups_append_cons {before : List String} {name : String} (h : name ∈ before)
    (rest : List String) : (before ++ name :: rest).eraseDups = (before ++ rest).eraseDups := by
  have hremove : (name :: rest).removeAll before = rest.removeAll before := by
    simp [List.removeAll, h]
  rw [List.eraseDups_append, hremove, ← List.eraseDups_append]

/-- Under a name that is new a field goes to the end, and otherwise no name is added. -/
theorem names_set {fields : Fields} {names : List String}
    (h : fields.map Prod.fst = names.map Key.str) (name : String) (v : Json) :
    (set fields (.str name) v).map Prod.fst =
      (if name ∈ names then names else names ++ [name]).map Key.str := by
  induction fields generalizing names with
  | nil =>
    obtain rfl := List.map_eq_nil_iff.1 h.symm
    rfl
  | cons f rest ih =>
    cases names with
    | nil => cases h
    | cons first names =>
      obtain ⟨hfirst, hrest⟩ := List.cons_eq_cons.1 h
      by_cases hsame : first = name
      · have hkey : f.1.same (.str name) = true := hfirst ▸ Key.same_str.2 hsame
        rw [set, if_pos hkey, if_pos (hsame ▸ List.mem_cons_self)]
        exact h
      · have hkey : ¬ f.1.same (.str name) = true := by
          rw [show f.1 = .str first from hfirst, Key.same_str]
          exact hsame
        have hmem : name ∈ first :: names ↔ name ∈ names := by
          simp [Ne.symm hsame]
        rw [set, if_neg hkey, List.map_cons, ih hrest]
        simp only [hmem]
        split <;> simp [show f.1 = .str first from hfirst]

/-- The names of an update are the old ones and then the new ones as they come up. -/
theorem names_update {fields entries : Fields} {names more : List String} (hnames : names.Nodup)
    (h : fields.map Prod.fst = names.map Key.str)
    (hmore : entries.map Prod.fst = more.map Key.str) :
    (update fields entries).map Prod.fst = (names ++ more).eraseDups.map Key.str := by
  induction entries generalizing fields names more with
  | nil =>
    obtain rfl := List.map_eq_nil_iff.1 hmore.symm
    rw [List.append_nil, eraseDups_of_nodup hnames]
    exact h
  | cons e rest ih =>
    cases more with
    | nil => cases hmore
    | cons name more =>
      obtain ⟨hname, hrest⟩ := List.cons_eq_cons.1 hmore
      have hset := names_set h name e.2
      rw [update, List.foldl_cons, ← update, show e.1 = .str name from hname]
      by_cases hmem : name ∈ names
      · rw [if_pos hmem] at hset
        rw [eraseDups_append_cons hmem]
        exact ih hnames hset hrest
      · rw [if_neg hmem] at hset
        rw [List.append_cons]
        exact ih (List.concat_eq_append ▸ hnames.concat hmem) hset hrest

theorem names_ofList {entries : Fields} {names : List String}
    (h : entries.map Prod.fst = names.map Key.str) :
    (ofList entries).map Prod.fst = names.eraseDups.map Key.str :=
  names_update List.nodup_nil rfl h

/-! Entries side by side. -/

section
variable {R : Json → Json → Prop}

/-- Under one key, values that are related keep all values related. -/
theorem forall₂_set {ps qs : Fields} (h : List.Forall₂ (fun p q => p.1 = q.1 ∧ R p.2 q.2) ps qs)
    (key : Key) {v w : Json} (hvw : R v w) :
    List.Forall₂ (fun p q => p.1 = q.1 ∧ R p.2 q.2) (set ps key v) (set qs key w) := by
  induction h with
  | nil => exact .cons ⟨rfl, hvw⟩ .nil
  | @cons p q ps qs hpq hrest ih =>
    rw [set, set, hpq.1]
    split
    · exact .cons ⟨rfl, hvw⟩ hrest
    · exact .cons ⟨rfl, hpq.2⟩ ih

theorem forall₂_update {entries entries' fields fields' : Fields}
    (hentries : List.Forall₂ (fun p q => p.1 = q.1 ∧ R p.2 q.2) entries entries')
    (hfields : List.Forall₂ (fun p q => p.1 = q.1 ∧ R p.2 q.2) fields fields') :
    List.Forall₂ (fun p q => p.1 = q.1 ∧ R p.2 q.2) (update fields entries)
      (update fields' entries') := by
  induction hentries generalizing fields fields' with
  | nil => exact hfields
  | @cons p q entries entries' hpq _ ih =>
    have hset := forall₂_set hfields p.1 hpq.2
    rw [update, update, List.foldl_cons, List.foldl_cons, ← hpq.1]
    exact ih hset
end

end SchemaDecl.Fields
