import SchemaDecl.Proofs.Json.Updates
import SchemaDecl.Proofs.Schema.Likeness

/-! The two forms of properties. They may be given as a list of nodes with names
or as a mapping of names to nodes. `mapped` puts a mapping in the place of each
such list, at every node a walk may come to; a node from a list loses its `name`
there, which nothing but the folding of the list reads. Normalized, a schema and
its mapped form are alike. -/

namespace SchemaDecl.Schema

/-! Lists of properties. -/

/-- The nodes of a list under their names. -/
def byName (f : Fields → Json) : List Json → Fields
  | [] => []
  | .obj fields :: rest => match Fields.value fields "name" with
    | .str name => (.str name, f fields) :: byName f rest
    | _ => byName f rest
  | _ :: rest => byName f rest

/-- All nodes of a list have texts for names, and no two of them the same. -/
def NamedApart (entries : List Json) : Prop :=
  (∀ entry ∈ entries, namedByText entry = true) ∧ ((byName Json.obj entries).map Prod.fst).Nodup

instance (entries : List Json) : Decidable (NamedApart entries) :=
  inferInstanceAs (Decidable (_ ∧ _))

/-! The mapped form. -/

section
variable (go : Json → Json)

def mappedProperties : Json → Json
  | .obj properties => .obj (properties.map fun p => (p.1, go p.2))
  | .arr entries =>
    if NamedApart entries then
      .obj (byName (fun fields => go (.obj (Fields.erase fields "name"))) entries)
    else .arr entries
  | other => other

/-- A list that stands first may take the place of the items. -/
def mappedItems : Json → Json
  | .arr (.arr first :: rest) => .arr (.arr (first.map go) :: rest.map go)
  | .arr items => .arr (items.map go)
  | item => go item

def mappedMembers : Json → Json
  | .arr members => .arr (members.map go)
  | other => other

def mappedAt (key : Key) : Json → Json :=
  if key = "properties" then mappedProperties go
  else if key = "items" then mappedItems go
  else if key ∈ combinators then mappedMembers go
  else id

def mappedNode (fields : Fields) : Fields := fields.map fun f => (f.1, mappedAt go f.1 f.2)
end

def mappedTo : Nat → Json → Json
  | levels + 1, .obj fields => .obj (mappedNode (mappedTo levels) fields)
  | _, schema => schema

/-- The schema with a mapping in the place of each list of properties. -/
def mapped (schema : Json) : Json := mappedTo schema.depth schema

/-! The levels reach the whole tree. -/

theorem byName_congr {f g : Fields → Json} {entries : List Json}
    (h : ∀ fields, .obj fields ∈ entries → f fields = g fields) :
    byName f entries = byName g entries := by
  induction entries with
  | nil => rfl
  | cons entry rest ih =>
    have hrest := ih fun fields hfields => h fields (List.mem_cons_of_mem _ hfields)
    cases entry with
    | obj fields => rw [byName, byName, hrest, h fields List.mem_cons_self]
    | _ => exact hrest

theorem depthFields_erase_le (fields : Fields) (key : Key) :
    Json.depthFields (Fields.erase fields key) ≤ Json.depthFields fields := by
  induction fields with
  | nil => exact Nat.le_refl _
  | cons f rest ih =>
    rw [Fields.erase, List.filter_cons, ← Fields.erase, Json.depthFields]
    split
    · rw [Json.depthFields]
      omega
    · omega

section
variable {go go' : Json → Json} {v : Json} (h : ∀ x, x.depth ≤ v.depth → go x = go' x)
include h

theorem mappedProperties_congr : mappedProperties go v = mappedProperties go' v := by
  cases v with
  | obj ps =>
    refine congrArg Json.obj (List.map_congr_left fun p hp => ?_)
    rw [h p.2 (Nat.le_succ_of_le (Json.depth_le_depthFields hp))]
  | arr entries =>
    rw [mappedProperties, mappedProperties, byName_congr fun fields hfields => h _ ?_]
    have hentry := Json.depth_le_depthItems hfields
    have herase := depthFields_erase_le fields "name"
    rw [Json.depth] at hentry ⊢
    rw [Json.depth]
    omega
  | _ => rfl

theorem map_go_congr {xs : List Json} (hxs : Json.depthItems xs ≤ v.depth) :
    xs.map go = xs.map go' :=
  List.map_congr_left fun x hx => h x (Nat.le_trans (Json.depth_le_depthItems hx) hxs)

theorem mappedItems_congr : mappedItems go v = mappedItems go' v := by
  unfold mappedItems
  split
  · rename_i first rest
    rw [map_go_congr h (by simp only [Json.depth, Json.depthItems]; omega),
      map_go_congr h (by simp only [Json.depth, Json.depthItems]; omega)]
  · rw [map_go_congr h (by simp only [Json.depth]; omega)]
  · exact h v (Nat.le_refl _)

theorem mappedAt_go_congr (key : Key) : mappedAt go key v = mappedAt go' key v := by
  unfold mappedAt
  split_ifs
  · exact mappedProperties_congr h
  · exact mappedItems_congr h
  · cases v with
    | arr members => exact congrArg Json.arr (map_go_congr h (Nat.le_succ _))
    | _ => rfl
  · rfl
end

theorem mappedNode_congr {go go' : Json → Json} {fields : Fields}
    (h : ∀ x, x.depth ≤ Json.depthFields fields → go x = go' x) :
    mappedNode go fields = mappedNode go' fields := by
  refine List.map_congr_left fun f hf => ?_
  rw [mappedAt_go_congr fun x hx => h x (Nat.le_trans hx (Json.depth_le_depthFields hf))]

theorem mappedTo_of_not_node {x : Json} (hno : ∀ fields, x ≠ .obj fields) (levels : Nat) :
    mappedTo levels x = x := by
  cases levels with
  | zero => rw [mappedTo]; exact nofun
  | succ levels =>
    rw [mappedTo]
    rintro _ fields _ rfl
    exact hno fields rfl

theorem mappedTo_congr {m n : Nat} {x : Json} (hm : x.depth ≤ m) (hn : x.depth ≤ n) :
    mappedTo m x = mappedTo n x := by
  induction m generalizing n x with
  | zero =>
    have hno : ∀ fields, x ≠ .obj fields := by
      rintro fields rfl
      simp [Json.depth] at hm
    rw [mappedTo_of_not_node hno, mappedTo_of_not_node hno]
  | succ m ih =>
    by_cases hno : ∀ fields, x ≠ .obj fields
    · rw [mappedTo_of_not_node hno, mappedTo_of_not_node hno]
    · push Not at hno
      obtain ⟨fields, rfl⟩ := hno
      rw [Json.depth] at hm hn
      obtain ⟨n, rfl⟩ : ∃ k, n = k + 1 := ⟨n - 1, by omega⟩
      exact congrArg Json.obj (mappedNode_congr fun y hy => ih (by omega) (by omega))

/-- The mapped form of a node holds the mapped forms of what it holds. -/
theorem mapped_obj (fields : Fields) : mapped (.obj fields) = .obj (mappedNode mapped fields) :=
  congrArg Json.obj (mappedNode_congr fun _ hx => mappedTo_congr hx (Nat.le_refl _))

/-! Folding. -/

theorem forall₂_byName {R : Json → Json → Prop} {f g : Fields → Json}
    (h : ∀ fields, R (f fields) (g fields)) (entries : List Json) :
    List.Forall₂ (fun p q => p.1 = q.1 ∧ R p.2 q.2) (byName f entries) (byName g entries) := by
  induction entries with
  | nil => exact .nil
  | cons entry rest ih =>
    cases entry with
    | obj fields =>
      rw [byName, byName]
      split
      · exact .cons ⟨rfl, h fields⟩ ih
      · exact ih
    | _ => exact ih

theorem isText_byName {f : Fields → Json} {entries : List Json} {p : Key × Json}
    (hp : p ∈ byName f entries) : ∃ name, p.1 = .str name := by
  induction entries with
  | nil => cases hp
  | cons entry rest ih =>
    cases entry with
    | obj fields =>
      rw [byName] at hp
      split at hp
      · rcases List.mem_cons.1 hp with rfl | hp
        · exact ⟨_, rfl⟩
        · exact ih hp
      · exact ih hp
    | _ => exact ih hp

theorem separate_byName {entries : List Json} (h : NamedApart entries) :
    Fields.Separate (byName Json.obj entries) := by
  refine (List.pairwise_map.1 h.2).imp_of_mem fun {p q} hp hq hne => ?_
  obtain ⟨s, hs⟩ := isText_byName hp
  obtain ⟨t, ht⟩ := isText_byName hq
  rw [hs, ht] at hne ⊢
  rw [← Bool.not_eq_true, Key.same_str]
  simpa using hne

theorem foldlM_foldEntry {entries : List Json}
    (hnamed : ∀ entry ∈ entries, namedByText entry = true) {folded : Fields}
    (hseparate : Fields.Separate (folded ++ byName Json.obj entries)) :
    entries.foldlM foldEntry folded = .ok (folded ++ byName Json.obj entries) := by
  induction entries generalizing folded with
  | nil => simp [byName, pure, Except.pure]
  | cons entry rest ih =>
    have hrest : ∀ entry ∈ rest, namedByText entry = true :=
      fun e he => hnamed e (List.mem_cons_of_mem _ he)
    rw [List.foldlM_cons]
    cases entry with
    | obj fields =>
      obtain ⟨name, hname⟩ := name_of_namedByText (hnamed _ List.mem_cons_self)
      have hcons : byName Json.obj (.obj fields :: rest) =
          (.str name, .obj fields) :: byName Json.obj rest := by
        rw [byName, hname]
      have happend : folded ++ byName Json.obj (.obj fields :: rest) =
          folded ++ [(.str name, .obj fields)] ++ byName Json.obj rest := by
        rw [hcons, List.append_assoc]
        rfl
      have hfresh : ∀ f ∈ folded, f.1.same (.str name) = false := fun f hf =>
        (List.pairwise_append.1 hseparate).2.2 f hf (.str name, .obj fields)
          (hcons ▸ List.mem_cons_self)
      have hentry : foldEntry folded (.obj fields) =
          .ok (folded ++ [(.str name, .obj fields)]) := by
        rw [foldEntry, hname, ← Fields.set_of_fresh hfresh]
        rfl
      rw [happend] at hseparate ⊢
      rw [hentry]
      exact ih hrest hseparate
    | _ => exact ih hrest hseparate

theorem foldEntries_of_namedApart {entries : List Json} (h : NamedApart entries) :
    foldEntries entries = .ok (byName Json.obj entries) := by
  rw [foldEntries_eq]
  exact foldlM_foldEntry h.1 (by simpa using separate_byName h)

/-! Twins: nodes whose parts correspond. -/

/-- Equal but for the values of an object, which correspond. -/
inductive SameKeys (R : Json → Json → Prop) : Json → Json → Prop
  | obj {ps qs : Fields} : List.Forall₂ (fun p q => p.1 = q.1 ∧ R p.2 q.2) ps qs →
      SameKeys R (.obj ps) (.obj qs)
  | other {v : Json} : (∀ ps, v ≠ .obj ps) → SameKeys R v v

/-- Properties that correspond once they are folded. -/
inductive SameForms (R : Json → Json → Prop) : Json → Json → Prop
  | keys {v w : Json} : SameKeys R v w → SameForms R v w
  | folded {entries : List Json} {ps qs : Fields} : foldEntries entries = .ok ps →
      List.Forall₂ (fun p q => p.1 = q.1 ∧ R p.2 q.2) ps qs → SameForms R (.arr entries) (.obj qs)

/-- Values that correspond, or lists of them. -/
inductive OneOrList (R : Json → Json → Prop) : Json → Json → Prop
  | one {v w : Json} : R v w → OneOrList R v w
  | list {vs ws : List Json} : List.Forall₂ R vs ws → OneOrList R (.arr vs) (.arr ws)

/-- Equal but for the entries of a list, which correspond. -/
inductive Entrywise (R : Json → Json → Prop) : Json → Json → Prop
  | list {vs ws : List Json} : List.Forall₂ R vs ws → Entrywise R (.arr vs) (.arr ws)
  | other {v : Json} : (∀ vs, v ≠ .arr vs) → Entrywise R v v

/-- How the values of twins correspond under a keyword; `P` is what is asked of properties. -/
def TwinAt (P R : Json → Json → Prop) (key : Key) : Json → Json → Prop :=
  if key = "properties" then P
  else if key = "items" then OneOrList (OneOrList R)
  else if key ∈ combinators then Entrywise R
  else Eq

/-- Nodes that hold the same, apart from a `name` and from children that correspond. -/
def Twin (P R : Json → Json → Prop) (fs gs : Fields) : Prop :=
  ∀ key : Key, key ≠ "name" →
    Option.Rel (TwinAt P R key) (Fields.get? fs key) (Fields.get? gs key)

theorem eq_str_of_canon {key : Key} {name : String} (h : key.canon = (Key.str name).canon) :
    key = .str name := by
  cases key with
  | float x =>
    rw [Key.canon] at h
    split at h <;> cases h
  | str s => exact h
  | _ => cases h

/-- A keyword that is none of some texts is the same as none of them. -/
theorem canon_ne_of_not_mem {keys : List Key} (hkeys : ∀ key ∈ keys, isText key = true) {l : Key}
    (h : l ∉ keys) : ∀ key ∈ keys, key.canon ≠ l.canon := by
  intro key hkey heq
  have htext := hkeys key hkey
  cases key with
  | str s => exact h (eq_str_of_canon heq.symm ▸ hkey)
  | _ => cases htext

/-- Keywords that are the same are equal where a test is for a text. -/
theorem eq_str_congr {key l : Key} (h : key.canon = l.canon) (name : String) :
    key = .str name ↔ l = .str name := by
  constructor
  · rintro rfl
    exact eq_str_of_canon h.symm
  · rintro rfl
    exact eq_str_of_canon h

theorem mem_combinators_congr {key l : Key} (h : key.canon = l.canon) :
    key ∈ combinators ↔ l ∈ combinators := by
  simp only [combinators, List.mem_cons, List.not_mem_nil, or_false, eq_str_congr h]

section
variable {P Q R : Json → Json → Prop} {fs gs : Fields}

theorem twinAt_congr {key l : Key} (h : key.canon = l.canon) : TwinAt P R key = TwinAt P R l := by
  simp only [TwinAt, eq_str_congr h, mem_combinators_congr h]

theorem Twin.set (h : Twin P R fs gs) {key : Key} {v w : Json} (hvw : TwinAt P R key v w) :
    Twin P R (Fields.set fs key v) (Fields.set gs key w) := by
  intro l hl
  by_cases hsame : key.canon = l.canon
  · rw [Fields.get?_set_same fs v hsame, Fields.get?_set_same gs w hsame]
    exact .some (twinAt_congr hsame ▸ hvw)
  · rw [Fields.get?_set_other fs v hsame, Fields.get?_set_other gs w hsame]
    exact h l hl

/-- Other properties may have to meet other demands. -/
theorem Twin.set_properties (h : Twin P R fs gs) {v w : Json} (hvw : Q v w) :
    Twin Q R (Fields.set fs "properties" v) (Fields.set gs "properties" w) := by
  intro l hl
  by_cases hsame : (Key.str "properties").canon = l.canon
  · rw [Fields.get?_set_same fs v hsame, Fields.get?_set_same gs w hsame,
      eq_str_of_canon hsame.symm]
    exact .some hvw
  · have hne : l ≠ "properties" := fun heq => hsame (heq ▸ rfl)
    rw [Fields.get?_set_other fs v hsame, Fields.get?_set_other gs w hsame]
    have hl := h l hl
    simp only [TwinAt, if_neg hne] at hl ⊢
    exact hl

theorem Twin.eraseAll (h : Twin P R fs gs) (keys : List Key) :
    Twin P R (Fields.eraseAll fs keys) (Fields.eraseAll gs keys) := by
  induction keys generalizing fs gs with
  | nil => exact h
  | cons key keys ih =>
    refine ih fun l hl => ?_
    by_cases hsame : key.canon = l.canon
    · rw [Fields.get?_erase_same fs hsame, Fields.get?_erase_same gs hsame]
      exact .none
    · rw [Fields.get?_erase_other fs hsame, Fields.get?_erase_other gs hsame]
      exact h l hl

theorem Twin.get?_eq (h : Twin P R fs gs) (key : Key) (hkey : key ∉ ("name" : Key) :: childKeys) :
    Fields.get? fs key = Fields.get? gs key := by
  simp only [childKeys, List.mem_cons, not_or] at hkey
  obtain ⟨hname, hproperties, hitems, hcombinators⟩ := hkey
  have hrel := h key hname
  simp only [TwinAt, if_neg hproperties, if_neg hitems, if_neg hcombinators] at hrel
  generalize Fields.get? fs key = v at hrel ⊢
  generalize Fields.get? gs key = w at hrel ⊢
  cases hrel with
  | some heq => rw [heq]
  | none => rfl

theorem rel_value {S : Json → Json → Prop} {key : Key} (hnull : S .null .null)
    (h : Option.Rel S (Fields.get? fs key) (Fields.get? gs key)) :
    S (Fields.value fs key) (Fields.value gs key) := by
  rw [Fields.value, Fields.value]
  generalize Fields.get? fs key = v at h ⊢
  generalize Fields.get? gs key = w at h ⊢
  cases h with
  | some hvw => exact hvw
  | none => exact hnull

theorem Twin.properties (h : Twin P R fs gs) :
    Option.Rel P (Fields.get? fs "properties") (Fields.get? gs "properties") :=
  h "properties" (by decide)

theorem Twin.items (h : Twin P R fs gs) :
    Option.Rel (OneOrList (OneOrList R)) (Fields.get? fs "items") (Fields.get? gs "items") :=
  h "items" (by decide)

theorem Twin.members (h : Twin P R fs gs) {key : Key} (hkey : key ∈ combinators) :
    Option.Rel (Entrywise R) (Fields.get? fs key) (Fields.get? gs key) := by
  have hne : key ≠ "name" ∧ key ≠ "properties" ∧ key ≠ "items" := by
    revert key
    decide
  have hrel := h key hne.1
  simp only [TwinAt, if_neg hne.2.1, if_neg hne.2.2, if_pos hkey] at hrel
  exact hrel
end

/-! Twins look the same. -/

section
variable {R : Json → Json → Prop} {fs gs : Fields}

theorem propertiesOutline_of_sameKeys (v w : Json) (h : SameKeys R v w) :
    propertiesOutline v = propertiesOutline w := by
  cases h with
  | obj hall =>
    refine congrArg Json.obj ?_
    induction hall with
    | nil => rfl
    | cons hfirst _ ih => rw [List.map_cons, List.map_cons, hfirst.1, ih]
  | other _ => rfl

theorem outline_of_forall₂ {vs ws : List Json} (h : List.Forall₂ R vs ws) :
    outline (.arr vs) = outline (.arr ws) := by
  simp only [outline, List.map_const', h.length_eq]

theorem map_eq_of_rel {S : Json → Json → Prop} {f : Json → Json}
    (hf : ∀ v w, S v w → f v = f w) {v w : Option Json} (h : Option.Rel S v w) :
    v.map f = w.map f := by
  cases h with
  | some hvw => rw [Option.map_some, Option.map_some, hf _ _ hvw]
  | none => rfl

theorem outline_of_oneOrList {S : Json → Json → Prop} (hS : ∀ v w, S v w → outline v = outline w)
    (v w : Json) (h : OneOrList S v w) : outline v = outline w := by
  cases h with
  | one hvw => exact hS v w hvw
  | list hall => exact outline_of_forall₂ hall

theorem outline_of_entrywise (v w : Json) (h : Entrywise R v w) : outline v = outline w := by
  cases h with
  | list hall => exact outline_of_forall₂ hall
  | other _ => rfl

/-- Values that correspond are equal unless both are nodes, and each value corresponds to itself. -/
structure Nodewise (R : Json → Json → Prop) : Prop where
  refl : ∀ v, R v v
  kept : ∀ v w, R v w → Kept v w

variable (hR : Nodewise R)
include hR

theorem Twin.face (h : Twin (SameKeys R) R fs gs) : SameFace fs gs where
  read key hkey := by
    refine h.get?_eq key ?_
    revert key
    decide
  properties := map_eq_of_rel propertiesOutline_of_sameKeys h.properties
  outlines key hkey := by
    have hone : ∀ v w, R v w → outline v = outline w :=
      fun v w hvw => (outline_of_kept (hR.kept v w hvw)).symm
    simp only [outlinedKeys, List.mem_cons] at hkey
    rcases hkey with rfl | rfl | hkey
    · rw [h.get?_eq _ (by decide)]
    · exact map_eq_of_rel (outline_of_oneOrList (outline_of_oneOrList hone)) h.items
    · exact map_eq_of_rel outline_of_entrywise (h.members hkey)

omit hR in
theorem Twin.forall₂_properties (h : Twin (SameKeys R) R fs gs) :
    List.Forall₂ (OneOrList R) ((Schema.properties fs).map Prod.snd)
      ((Schema.properties gs).map Prod.snd) := by
  have hvalue := rel_value (.other nofun) h.properties
  unfold Schema.properties
  generalize Fields.value fs "properties" = v at hvalue ⊢
  generalize Fields.value gs "properties" = w at hvalue ⊢
  cases hvalue with
  | obj hall =>
    rw [List.forall₂_map_left_iff, List.forall₂_map_right_iff]
    exact hall.imp fun _ _ hpq => .one hpq.2
  | other hno =>
    cases v with
    | obj ps => exact absurd rfl (hno ps)
    | _ => exact .nil

theorem lists_of_oneOrList {v w : Json} (h : OneOrList (OneOrList R) v w) :
    (∃ vs ws, v = .arr vs ∧ w = .arr ws ∧ List.Forall₂ (OneOrList R) vs ws) ∨
      ((∀ vs, v ≠ .arr vs) ∧ (∀ ws, w ≠ .arr ws) ∧ R v w) := by
  cases h with
  | list hall => exact .inl ⟨_, _, rfl, rfl, hall⟩
  | one hvw =>
    cases hvw with
    | list hall => exact .inl ⟨_, _, rfl, rfl, hall.imp fun _ _ => .one⟩
    | one hvw =>
      rcases hR.kept _ _ hvw with heq | ⟨_, _, rfl, rfl⟩
      · subst heq
        by_cases hlist : ∃ vs, v = .arr vs
        · obtain ⟨vs, rfl⟩ := hlist
          exact .inl ⟨vs, vs, rfl, rfl, List.forall₂_same.2 fun x _ => .one (hR.refl x)⟩
        · push Not at hlist
          exact .inr ⟨hlist, hlist, hvw⟩
      · exact .inr ⟨nofun, nofun, hvw⟩

theorem Twin.forall₂_items (h : Twin (SameKeys R) R fs gs) :
    List.Forall₂ (OneOrList R) (Schema.items fs) (Schema.items gs) := by
  have hvalue := rel_value (.one (.one (hR.refl .null))) h.items
  unfold Schema.items
  generalize Fields.value fs "items" = v at hvalue ⊢
  generalize Fields.value gs "items" = w at hvalue ⊢
  rcases lists_of_oneOrList hR hvalue with ⟨vs, ws, rfl, rfl, hall⟩ | ⟨hv, _, hvw⟩
  · exact hall
  · rcases hR.kept _ _ hvw with rfl | ⟨_, _, rfl, rfl⟩
    · exact List.forall₂_same.2 fun x _ => .one (hR.refl x)
    · exact .cons (.one hvw) .nil

omit hR in
theorem Twin.forall₂_members (h : Twin (SameKeys R) R fs gs) {key : Key}
    (hkey : key ∈ combinators) :
    List.Forall₂ (OneOrList R) (Schema.members fs key) (Schema.members gs key) := by
  have hvalue := rel_value (.other nofun) (h.members hkey)
  unfold Schema.members
  generalize Fields.value fs key = v at hvalue ⊢
  generalize Fields.value gs key = w at hvalue ⊢
  cases hvalue with
  | list hall => exact hall.imp fun _ _ => .one
  | other hno =>
    cases v with
    | arr vs => exact absurd rfl (hno vs)
    | _ => exact .nil

/-- The children of twins correspond. -/
theorem Twin.forall₂_childValues (h : Twin (SameKeys R) R fs gs) :
    List.Forall₂ (OneOrList R) (childValues fs) (childValues gs) := by
  have hmembers : List.Forall₂ (OneOrList R) (combinators.flatMap (Schema.members fs))
      (combinators.flatMap (Schema.members gs)) := by
    refine List.rel_flatMap (R := fun k l => k = l ∧ k ∈ combinators)
      (List.forall₂_same.2 fun key hkey => ⟨rfl, hkey⟩) ?_
    rintro key _ ⟨rfl, hkey⟩
    exact h.forall₂_members hkey
  exact List.rel_append h.forall₂_properties (List.rel_append (h.forall₂_items hR) hmembers)
end

/-! Twins are folded and normalized to twins. -/

section
variable {P Q R : Json → Json → Prop} {fs gs : Fields}

theorem twinAt_other {key : Key} (h : key ∉ childKeys) : TwinAt P R key = Eq := by
  simp only [childKeys, List.mem_cons, not_or] at h
  rw [TwinAt, if_neg h.1, if_neg h.2.1, if_neg h.2.2]

theorem Twin.set_other (h : Twin P R fs gs) {key : Key} (hkey : key ∉ childKeys) (v : Json) :
    Twin P R (Fields.set fs key v) (Fields.set gs key v) :=
  h.set (twinAt_other hkey ▸ rfl)

theorem Twin.with_properties (h : Twin P R fs gs)
    (hQ : Option.Rel Q (Fields.get? fs "properties") (Fields.get? gs "properties")) :
    Twin Q R fs gs := by
  intro key hkey
  by_cases hproperties : key = "properties"
  · rw [hproperties]
    exact hQ
  · have hrel := h key hkey
    simp only [TwinAt, if_neg hproperties] at hrel ⊢
    exact hrel

theorem rel_cases {S : Json → Json → Prop} {a b : Option Json} (h : Option.Rel S a b) :
    (a = none ∧ b = none) ∨ ∃ v w, a = some v ∧ b = some w ∧ S v w := by
  cases h with
  | some hvw => exact .inr ⟨_, _, rfl, rfl, hvw⟩
  | none => exact .inl ⟨rfl, rfl⟩

theorem foldNode_of_arr {fields : Fields} {entries : List Json}
    (h : Fields.value fields "properties" = .arr entries) :
    foldNode fields = (foldEntries entries).map fun folded =>
      Fields.set fields "properties" (.obj folded) := by
  simp only [foldNode, h]
  cases foldEntries entries <;> rfl

variable (hR : Nodewise R)
include hR

theorem twin_foldNode (h : Twin (SameForms R) R fs gs) :
    SameEnd (Twin (SameKeys R) R) (foldNode fs) (foldNode gs) := by
  rcases rel_cases h.properties with ⟨hfs, hgs⟩ | ⟨v, w, hfs, hgs, hvw⟩
  · have hnull : ∀ {fields : Fields}, Fields.get? fields "properties" = none →
        ∀ entries, Fields.value fields "properties" ≠ .arr entries := by
      intro fields hnone entries
      simp [Fields.value, hnone]
    rw [foldNode_of_not_arr (hnull hfs), foldNode_of_not_arr (hnull hgs)]
    refine sameEnd_ok (h.with_properties ?_)
    rw [hfs, hgs]
    exact .none
  · have hv := Fields.value_of_get? hfs
    have hw := Fields.value_of_get? hgs
    cases hvw with
    | @folded entries ps qs hfolded hall =>
      have hnow : Fields.set gs "properties" (.obj qs) = gs := Fields.set_of_value hw (by simp)
      rw [foldNode_of_arr hv, hfolded, foldNode_of_not_arr (by simp [hw])]
      refine sameEnd_ok ?_
      rw [← hnow]
      exact h.set_properties (.obj hall)
    | keys hkeys =>
      by_cases hlist : ∃ entries, v = .arr entries
      · obtain ⟨entries, rfl⟩ := hlist
        cases hkeys
        rw [foldNode_of_arr hv, foldNode_of_arr hw]
        refine (sameEnd_self (Q := Eq) (fun _ => rfl) (foldEntries entries)).map ?_
        rintro folded _ rfl
        exact h.set_properties (.obj (List.forall₂_same.2 fun p _ => ⟨rfl, hR.refl p.2⟩))
      · have hw' : ∀ entries, w ≠ .arr entries := by
          rintro entries rfl
          cases hkeys
          exact hlist ⟨entries, rfl⟩
        rw [foldNode_of_not_arr (fun entries heq => hlist ⟨entries, hv.symm.trans heq⟩),
          foldNode_of_not_arr (fun entries heq => hw' entries (hw.symm.trans heq))]
        refine sameEnd_ok (h.with_properties ?_)
        rw [hfs, hgs]
        exact .some hkeys
end

namespace Normal

section
variable {P R : Json → Json → Prop} {fs gs : Fields}

theorem twin_withCanonicalType (h : Twin P R fs gs) (table : Fields) :
    Twin P R (withCanonicalType table fs) (withCanonicalType table gs) := by
  have htype := Fields.value_congr (h.get?_eq "type" (by decide))
  dsimp only [withCanonicalType]
  rw [htype]
  split
  · exact h.set_other (by decide) _
  · exact h

theorem twin_withStrippedRequired (h : Twin P R fs gs) :
    Twin P R (withStrippedRequired fs) (withStrippedRequired gs) := by
  have hrequired := Fields.value_congr (h.get?_eq "required" (by decide))
  unfold withStrippedRequired
  rw [hrequired]
  split
  · exact h.set_other (by decide) _
  · exact h

theorem forall₂_stripProperties {ps qs : Fields}
    (h : List.Forall₂ (fun p q => p.1 = q.1 ∧ R p.2 q.2) ps qs) :
    List.Forall₂ (fun p q => p.1 = q.1 ∧ R p.2 q.2) (stripProperties ps) (stripProperties qs) := by
  refine Fields.forall₂_update ?_ .nil
  rw [List.forall₂_map_left_iff, List.forall₂_map_right_iff]
  exact h.imp fun p q hpq => ⟨congrArg stripKey hpq.1, hpq.2⟩

theorem twin_withStrippedNames (h : Twin (SameKeys R) R fs gs) :
    Twin (SameKeys R) R (withStrippedNames fs) (withStrippedNames gs) := by
  have hproperties := rel_value (.other nofun) h.properties
  unfold withStrippedNames
  generalize Fields.value fs "properties" = v at hproperties ⊢
  generalize Fields.value gs "properties" = w at hproperties ⊢
  cases hproperties with
  | obj hall =>
    exact twin_withStrippedRequired (h.set_properties (.obj (forall₂_stripProperties hall)))
  | other hno =>
    cases v with
    | obj ps => exact absurd rfl (hno ps)
    | _ => exact h

variable (hR : Nodewise R)
include hR

theorem twin_withOneItem (h : Twin P R fs gs) : Twin P R (withOneItem fs) (withOneItem gs) := by
  have htype := Fields.value_congr (h.get?_eq "type" (by decide))
  have hitems := rel_value (.one (.one (hR.refl .null))) h.items
  rcases lists_of_oneOrList hR hitems with ⟨vs, ws, hv, hw, hall⟩ | ⟨hv, hw, _⟩
  · cases hall with
    | nil => rwa [withOneItem_of_not_list (by simp [hv]), withOneItem_of_not_list (by simp [hw])]
    | @cons item item' _ _ hfirst _ =>
      have hset : TwinAt P R "items" item item' := show OneOrList (OneOrList R) item item' from
        .one hfirst
      by_cases harray : Fields.value gs "type" = .str "array"
      · rw [withOneItem, withOneItem, htype, harray, hv, hw]
        exact h.set hset
      · rwa [withOneItem_of_not_list fun htype' => absurd (htype.symm.trans htype') harray,
          withOneItem_of_not_list fun htype' => absurd htype' harray]
  · rwa [withOneItem_of_not_list fun _ item rest => hv (item :: rest),
      withOneItem_of_not_list fun _ item rest => hw (item :: rest)]

theorem twin_node (h : Twin (SameKeys R) R fs gs) (table : Fields) :
    Twin (SameKeys R) R (node table fs) (node table gs) :=
  twin_withStrippedNames (twin_withOneItem hR (twin_withCanonicalType (h.eraseAll _) table))
end

/-- If nodes that correspond are twins, normalizing makes them alike. -/
theorem paired_visitor {R : Json → Json → Prop} (hR : Nodewise R)
    (htwin : ∀ fs gs, R (.obj fs) (.obj gs) → Twin (SameForms R) R fs gs) (table : Fields) :
    Paired (visitor table) (fun _ => OneOrList R) Alike where
  leaf _ x y h hno := by
    cases h with
    | list _ => exact ⟨nofun, .leaf nofun nofun⟩
    | one hxy =>
      rcases hR.kept x y hxy with rfl | ⟨fields, _, hobj, _⟩
      · exact ⟨hno, .leaf hno hno⟩
      · exact absurd hobj (hno fields)
  node path fs y h := by
    cases h with
    | one hxy =>
      obtain ⟨gs, rfl⟩ : ∃ gs, y = .obj gs := by
        rcases hR.kept _ _ hxy with heq | ⟨_, gs, _, hgs⟩
        · exact ⟨fs, heq.symm⟩
        · exact ⟨gs, hgs⟩
      refine ⟨gs, rfl, ?_⟩
      rcases twin_foldNode hR (htwin fs gs hxy) with hfault | ⟨found, found', hfs, hgs, hfound⟩
      · exact .inl hfault
      have hnode := twin_node hR hfound table
      have hadditional := hnode.get?_eq "additionalProperties" (by decide)
      refine .inr ⟨found, found', hfs, hgs,
        ((hnode.face hR).view TypeScript.decidesAlone).forall₂_children path
          (hnode.forall₂_childValues hR), ?_⟩
      intro new new' hnew hnew' hall
      refine alike_withChildren (hnode.face hR) ?_ hnew hnew' hall
      rw [visit_eq, visit_eq, objectUnder_congr hadditional]
      exact forall₂_alike_refl _

end Normal

/-! The mapped form of a schema corresponds to it. -/

/-- A value and its mapped form, or what a node from a list becomes under its name. -/
inductive MapsTo : Json → Json → Prop
  | same (x : Json) : MapsTo x x
  | mapped (levels : Nat) (x : Json) : MapsTo x (mappedTo levels x)
  | unnamed (levels : Nat) (fields : Fields) :
      MapsTo (.obj fields) (mappedTo levels (.obj (Fields.erase fields "name")))

theorem mappedTo_obj (levels : Nat) (fields : Fields) :
    ∃ gs, mappedTo levels (.obj fields) = .obj gs := by
  cases levels with
  | zero => exact ⟨fields, rfl⟩
  | succ levels => exact ⟨_, rfl⟩

theorem nodewise_mapsTo : Nodewise MapsTo where
  refl := .same
  kept v w h := by
    cases h with
    | same => exact .inl rfl
    | mapped levels =>
      by_cases hno : ∀ fields, v ≠ .obj fields
      · exact .inl (mappedTo_of_not_node hno levels).symm
      · push Not at hno
        obtain ⟨fields, rfl⟩ := hno
        obtain ⟨gs, hgs⟩ := mappedTo_obj levels fields
        exact .inr ⟨fields, gs, rfl, hgs⟩
    | unnamed levels fields =>
      obtain ⟨gs, hgs⟩ := mappedTo_obj levels (Fields.erase fields "name")
      exact .inr ⟨fields, gs, rfl, hgs⟩

section
variable {R : Json → Json → Prop} (hR : Nodewise R)
include hR

theorem twinAt_refl (key : Key) (v : Json) : TwinAt (SameForms R) R key v v := by
  have hall : ∀ xs : List Json, List.Forall₂ R xs xs :=
    fun xs => List.forall₂_same.2 fun x _ => hR.refl x
  unfold TwinAt
  split_ifs
  · cases v with
    | obj ps => exact .keys (.obj (List.forall₂_same.2 fun p _ => ⟨rfl, hR.refl p.2⟩))
    | _ => exact .keys (.other nofun)
  · exact .one (.one (hR.refl v))
  · cases v with
    | arr vs => exact .list (hall vs)
    | _ => exact .other nofun
  · rfl

end

section
variable {R : Json → Json → Prop} {go : Json → Json} (hgo : ∀ x, R x (go x))
  (hunnamed : ∀ fields, R (.obj fields) (go (.obj (Fields.erase fields "name"))))
include hgo

theorem forall₂_map_go (xs : List Json) : List.Forall₂ R xs (xs.map go) := by
  rw [List.forall₂_map_right_iff]
  exact List.forall₂_same.2 fun x _ => hgo x

theorem oneOrList_mappedItems (v : Json) : OneOrList (OneOrList R) v (mappedItems go v) := by
  have hrest : ∀ xs : List Json, List.Forall₂ (OneOrList R) xs (xs.map go) :=
    fun xs => (forall₂_map_go hgo xs).imp fun _ _ => .one
  unfold mappedItems
  split
  · rename_i first rest
    exact .list (.cons (.list (forall₂_map_go hgo first)) (hrest rest))
  · exact .list (hrest _)
  · exact .one (.one (hgo v))

include hunnamed

theorem sameForms_mappedProperties (v : Json) : SameForms R v (mappedProperties go v) := by
  cases v with
  | obj ps =>
    refine .keys (.obj ?_)
    rw [List.forall₂_map_right_iff]
    exact List.forall₂_same.2 fun p _ => ⟨rfl, hgo p.2⟩
  | arr entries =>
    rw [mappedProperties]
    split
    · rename_i hnamed
      exact .folded (foldEntries_of_namedApart hnamed) (forall₂_byName hunnamed entries)
    · exact .keys (.other nofun)
  | _ => exact .keys (.other nofun)

theorem twinAt_mappedAt (key : Key) (v : Json) :
    TwinAt (SameForms R) R key v (mappedAt go key v) := by
  unfold TwinAt mappedAt
  split_ifs
  · exact sameForms_mappedProperties hgo hunnamed v
  · exact oneOrList_mappedItems hgo v
  · cases v with
    | arr vs => exact .list (forall₂_map_go hgo vs)
    | _ => exact .other nofun
  · rfl
end

theorem mappedAt_congr (go : Json → Json) {key l : Key} (h : key.canon = l.canon) :
    mappedAt go key = mappedAt go l := by
  simp only [mappedAt, eq_str_congr h, mem_combinators_congr h]

theorem get?_mappedNode (go : Json → Json) (fields : Fields) (key : Key) :
    Fields.get? (mappedNode go fields) key = (Fields.get? fields key).map (mappedAt go key) := by
  induction fields with
  | nil => rfl
  | cons f rest ih =>
    rw [mappedNode, List.map_cons, Fields.get?, Fields.get?]
    split
    · rename_i hsame
      rw [Option.map_some, mappedAt_congr go (Key.same_iff.1 hsame)]
    · exact ih

/-- Nodes match if the values of the second come from those of the first, keyword by keyword. -/
theorem twin_of_map {P R : Json → Json → Prop} {fs gs : Fields} {f : Key → Json → Json}
    (hf : ∀ key v, TwinAt P R key v (f key v))
    (h : ∀ key : Key, key ≠ "name" → Fields.get? gs key = (Fields.get? fs key).map (f key)) :
    Twin P R fs gs := by
  intro key hkey
  rw [h key hkey]
  cases Fields.get? fs key with
  | none => exact .none
  | some v => exact .some (hf key v)

theorem get?_erase_name (fields : Fields) {key : Key} (hkey : key ≠ "name") :
    Fields.get? (Fields.erase fields "name") key = Fields.get? fields key :=
  Fields.get?_erase_other fields fun hsame => hkey (eq_str_of_canon hsame.symm)

/-- Without or with its `name`, a node is the twin of itself and of its mapped form. -/
theorem twin_mappedTo {fs fields : Fields}
    (hfields : ∀ key : Key, key ≠ "name" → Fields.get? fields key = Fields.get? fs key)
    {levels : Nat} {gs : Fields} (h : mappedTo levels (.obj fields) = .obj gs) :
    Twin (SameForms MapsTo) MapsTo fs gs := by
  cases levels with
  | zero =>
    obtain rfl : fields = gs := Json.obj.inj h
    refine twin_of_map (f := fun _ v => v) (twinAt_refl nodewise_mapsTo) fun key hkey => ?_
    rw [hfields key hkey]
    exact Option.map_id'.symm
  | succ levels =>
    obtain rfl : mappedNode (mappedTo levels) fields = gs := Json.obj.inj h
    refine twin_of_map (twinAt_mappedAt (.mapped levels) (.unnamed levels)) fun key hkey => ?_
    rw [get?_mappedNode, hfields key hkey]

theorem twin_mapsTo {fs gs : Fields} (h : MapsTo (.obj fs) (.obj gs)) :
    Twin (SameForms MapsTo) MapsTo fs gs := by
  generalize hy : Json.obj gs = y at h
  cases h with
  | same => exact twin_mappedTo (fun _ _ => rfl) (show mappedTo 0 (.obj fs) = .obj gs from hy.symm)
  | mapped levels => exact twin_mappedTo (fun _ _ => rfl) hy.symm
  | unnamed levels => exact twin_mappedTo (fun _ hkey => get?_erase_name fs hkey) hy.symm

/-- Normalized, a schema and its mapped form are alike, or both fail in the same way. -/
theorem alike_normalize (table : Fields) (schema : Json) :
    SameEnd Alike (Normal.normalize table schema) (Normal.normalize table (mapped schema)) :=
  ((Normal.paired_visitor nodewise_mapsTo (fun _ _ => twin_mapsTo) table).walk
    (Normal.shallow_visitor table) (Nat.le_refl _) (Nat.le_refl _)
    (.one (.mapped schema.depth schema))).map fun _ _ halike => halike

end SchemaDecl.Schema
