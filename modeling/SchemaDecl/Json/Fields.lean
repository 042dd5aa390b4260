import SchemaDecl.Json.Basic

/-! Fields of an object as an ordered dictionary. `set` keeps the place and the
key of a field that is there already and appends otherwise, so building from a
list keeps the first place and the last value of a repeated key. `value` reads
a missing field as null. -/

namespace SchemaDecl.Fields

def get? (fields : Fields) (key : Key) : Option Json :=
  match fields with
  | [] => none
  | (k, v) :: rest => if k.same key then some v else get? rest key

def value (fields : Fields) (key : Key) : Json := (get? fields key).getD .null

def contains (fields : Fields) (key : Key) : Bool := (get? fields key).isSome

def set (fields : Fields) (key : Key) (v : Json) : Fields :=
  match fields with
  | [] => [(key, v)]
  | (k, w) :: rest => if k.same key then (k, v) :: rest else (k, w) :: set rest key v

def erase (fields : Fields) (key : Key) : Fields := fields.filter fun f => !f.1.same key

def eraseAll (fields : Fields) (keys : List Key) : Fields := keys.foldl erase fields

def update (fields entries : Fields) : Fields := entries.foldl (fun fs f => set fs f.1 f.2) fields

def ofList (entries : Fields) : Fields := update [] entries

/-- Replaces values from the left as long as there are new ones. -/
def withValues : Fields → List Json → Fields
  | (k, _) :: rest, v :: vs => (k, v) :: withValues rest vs
  | rest, _ => rest

theorem get?_set_same (fields : Fields) {k l : Key} (v : Json) (h : k.canon = l.canon) :
    get? (set fields k v) l = some v := by
  induction fields with
  | nil => simp [set, get?, Key.same_iff, h]
  | cons f rest ih =>
    simp only [set]
    split <;> rename_i hk
    · simp [get?, Key.same_iff, ← h, Key.same_iff.1 hk]
    · have : ¬ f.1.same l = true := fun e => hk (Key.same_iff.2 ((Key.same_iff.1 e).trans h.symm))
      simp [get?, this, ih]

theorem get?_set_other (fields : Fields) {k l : Key} (v : Json) (h : k.canon ≠ l.canon) :
    get? (set fields k v) l = get? fields l := by
  induction fields with
  | nil => simp [set, get?, Key.same_iff, h]
  | cons f rest ih =>
    simp only [set]
    split <;> rename_i hk
    · have : ¬ f.1.same l = true := fun e =>
        h ((Key.same_iff.1 hk).symm.trans (Key.same_iff.1 e))
      simp [get?, this]
    · simp only [get?]
      split
      · rfl
      · exact ih

theorem get?_erase_same (fields : Fields) {k l : Key} (h : k.canon = l.canon) :
    get? (erase fields k) l = none := by
  induction fields with
  | nil => rfl
  | cons f rest ih =>
    simp only [erase, List.filter_cons] at *
    split <;> rename_i hk
    · have : ¬ f.1.same l = true := fun e => by
        simp [Key.same_iff.2 ((Key.same_iff.1 e).trans h.symm)] at hk
      simp [get?, this, ih]
    · exact ih

theorem get?_erase_other (fields : Fields) {k l : Key} (h : k.canon ≠ l.canon) :
    get? (erase fields k) l = get? fields l := by
  induction fields with
  | nil => rfl
  | cons f rest ih =>
    simp only [erase, List.filter_cons] at *
    split <;> rename_i hk
    · simp only [get?]
      split
      · rfl
      · exact ih
    · have : ¬ f.1.same l = true := fun e =>
        h ((Key.same_iff.1 (by simpa using hk)).symm.trans (Key.same_iff.1 e))
      simp [get?, this, ih]

end SchemaDecl.Fields
