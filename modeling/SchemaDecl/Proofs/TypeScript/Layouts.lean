import SchemaDecl.Proofs.Schema.Addresses
import SchemaDecl.Proofs.TypeScript.GrowthLaws

/-! Layouts of types. A layout says how the type of a node is put together, down to
the parts that are written without looking below a node, and which members its
object literals have. It is read off the schema alone: neither the options nor the state
of a rendering matter. So a leaf holds the type that is written for it, but for an enum,
which is called by a name that is found only then, and for a list of types under the
index signature, which takes entries each time it is written. An object literal knows
the address of its node, as long as the way to it is one a walk takes. -/

namespace SchemaDecl.TypeScript

open Schema (Address Step At steps)

/-- A member of an object literal. -/
structure Member where
  key : Key
  optional : Bool
  description : Json

/-- What is written without looking below a node. -/
inductive Leaf
  | written (type : TypeText)
  /-- The name of an enum with these members. -/
  | declared (members : List (String × String))
  /-- A list that takes the entries of `undefined`. -/
  | listed

inductive Layout
  | leaf (leaf : Leaf)
  | array (item : Layout)
  | tuple (items : List Layout)
  | joined (separator : String) (parts : List Layout)
  /-- Members with their types, and the type behind the index signature. -/
  | object (place : Option Address) (depth : Nat) (members : List (Member × Layout))
      (signature : Option Layout)

/-- The layout of a type with a fixed text. -/
abbrev Layout.text (type : String) : Layout := .leaf (.written (.text type))

/-- The layout without the length of a list of types. -/
def Layout.loosened : Layout → Layout
  | .leaf (.written (.verbatim (.arr _))) => .leaf .listed
  | l => l

/-- Layout of a value at a place and a nesting depth. -/
abbrev Layouter := Option Address → Json → Nat → Layout

def onward (place : Option Address) (step : Step) : Option Address := place.map (· ++ [step])

def descriptionOf (x : Json) : Json := Fields.value (fieldsOf x) "description"

section
variable (below : Layouter) (place : Option Address) (fields : Fields) (depth : Nat)

def memberLayout (property : Key × Json) : Member × Layout :=
  (⟨property.1, !isRequired fields property.1, descriptionOf property.2⟩,
    below (onward place (.property property.1)) property.2 (depth + 1))

def signatureLayout : Option Layout :=
  match additionalOf fields with
  | .bool false => none
  | .obj inner => some (below none (.obj inner) (depth + 1)).loosened
  | _ => some (.text "unknown")

def objectLayout : Layout :=
  .object place depth ((propertiesOf fields).map (memberLayout below place fields depth))
    (signatureLayout below fields depth)

def arrayLayout : Layout :=
  match Fields.value fields "items" with
  | .arr [] => .text "unknown[]"
  | .arr items => .tuple (items.mapIdx fun i item => below (onward place (.item i)) item depth)
  | .obj item => .array (below (onward place (.item 0)) (.obj item) depth)
  | _ => .text "unknown[]"

def primitiveText : Json → String
  | .str name => (primitive? name).getD "unknown"
  | _ => "unknown"

def nameLayout (name : Json) : Layout :=
  if name = .str "object" then objectLayout below place fields depth
  else if name = .str "array" then arrayLayout below place fields depth
  else .text (primitiveText name)

def ownLayout : List Layout :=
  if hasStructure fields then
    [.joined " | " ((typeNames fields).map (nameLayout below place fields depth))]
  else []

def combinatorLayout (combinator : Key × String) : List Layout :=
  if entriesUnder fields combinator.1 = [] then []
  else [.joined combinator.2 ((entriesUnder fields combinator.1).mapIdx fun i member =>
    below (onward place (.member combinator.1 i)) member depth)]

/-- Without names for all of them, the values of an enum stand side by side. -/
def enumLayout : Layout :=
  if (entriesUnder fields "enum").isEmpty then .text "never"
  else if (entriesUnder fields "tsEnumNames").length = (entriesUnder fields "enum").length then
    .leaf (.declared (enumMembers (entriesUnder fields "tsEnumNames") (entriesUnder fields "enum")))
  else .joined " | " ((entriesUnder fields "enum").map fun value => .text (literal value))

/-- Layout of a node that one of its keywords decides alone. -/
def aloneLayout : Layout :=
  match Fields.get? fields "tsType" with
  | some type => .leaf (.written (.ofJson type))
  | none =>
    if (Fields.value fields "__is_any__").truthy then .text "any"
    else match Fields.get? fields "const" with
      | some value => .text (literal value)
      | none => enumLayout fields

def fieldsLayout : Layout :=
  if decidesAlone fields then aloneLayout fields
  else .joined " & " (ownLayout below place fields depth ++
    combinatorJoins.flatMap (combinatorLayout below place fields depth))
end

def layout : Nat → Layouter
  | 0 => fun _ _ _ => .text "unknown"
  | levels + 1 => fun place x depth => match x with
    | .obj fields => fieldsLayout (layout levels) place fields depth
    | _ => .text "unknown"

theorem layout_obj (levels : Nat) (place : Option Address) (fields : Fields) (depth : Nat) :
    layout (levels + 1) place (.obj fields) depth =
      fieldsLayout (layout levels) place fields depth := rfl

def rootLayout (schema : Json) : Layout :=
  if isInterface schema then
    objectLayout (layout (schema.depth - 1)) (some []) (fieldsOf schema) 0
  else layout schema.depth (some []) schema 0

/-! The object literals of a layout. -/

/-- A layout, and the layouts it is put together from. -/
inductive Layout.Within : Layout → Layout → Prop
  | refl {l : Layout} : Within l l
  | item {l item : Layout} : Within l item → Within l (.array item)
  | entry {l entry : Layout} {items : List Layout} :
      entry ∈ items → Within l entry → Within l (.tuple items)
  | part {l part : Layout} {separator : String} {parts : List Layout} :
      part ∈ parts → Within l part → Within l (.joined separator parts)
  | member {l : Layout} {place : Option Address} {depth : Nat} {member : Member × Layout}
      {members : List (Member × Layout)} {signature : Option Layout} :
      member ∈ members → Within l member.2 → Within l (.object place depth members signature)
  | signature {l inner : Layout} {place : Option Address} {depth : Nat}
      {members : List (Member × Layout)} :
      Within l inner → Within l (.object place depth members (some inner))

open Layout (Within)

theorem within_of_loosened {place : Option Address} {depth : Nat}
    {members : List (Member × Layout)} {signature : Option Layout} {l : Layout}
    (h : Within (.object place depth members signature) l.loosened) :
    Within (.object place depth members signature) l := by
  unfold Layout.loosened at h
  split at h
  · cases h
  · exact h

/-- What is rendered below a node, and the place where it stands. -/
inductive Leads (place : Option Address) (fields : Fields) : Option Address → Json → Prop
  | step {step : Step} {x : Json} :
      (step, x) ∈ steps fields → Leads place fields (onward place step) x
  | apart {x : Json} : x.depth ≤ Json.depthFields fields → Leads place fields none x

theorem Leads.depth_le {place place' : Option Address} {fields : Fields} {x : Json}
    (h : Leads place fields place' x) : x.depth ≤ Json.depthFields fields := by
  cases h with
  | step hstep =>
    exact Schema.depth_of_mem_childValues (Schema.mem_childValues_of_mem_steps hstep)
  | apart hle => exact hle

theorem depth_additionalOf_le (fields : Fields) :
    (additionalOf fields).depth ≤ Json.depthFields fields := by
  have hle := Fields.depth_value_le fields "additionalProperties"
  unfold Fields.value at hle
  unfold additionalOf
  cases hget : Fields.get? fields "additionalProperties" with
  | none => exact Nat.zero_le _
  | some v => rwa [hget] at hle

theorem mem_combinators_of_join : ∀ c ∈ combinatorJoins, c.1 ∈ Schema.combinators := by decide

theorem mem_mapIdx_pair {α β : Type} {f : Nat → β} {xs : List α} {i : Nat} (hi : i < xs.length) :
    (f i, xs[i]) ∈ xs.mapIdx fun i x => (f i, x) :=
  List.mem_mapIdx.2 ⟨i, hi, rfl⟩

section
variable {below : Layouter} {place : Option Address} {fields : Fields} {depth : Nat}

theorem mem_steps_property {property : Key × Json} (h : property ∈ propertiesOf fields) :
    (.property property.1, property.2) ∈ steps fields := by
  refine List.mem_append_left _ (List.mem_append_left _ ?_)
  exact List.mem_map_of_mem (f := fun p : Key × Json => (Step.property p.1, p.2)) h

theorem mem_steps_item {i : Nat} (hi : i < (Schema.items fields).length) :
    (.item i, (Schema.items fields)[i]) ∈ steps fields :=
  List.mem_append_left _ (List.mem_append_right _ (mem_mapIdx_pair hi))

theorem mem_steps_member {key : Key} (hkey : key ∈ Schema.combinators) {i : Nat}
    (hi : i < (entriesUnder fields key).length) :
    (.member key i, (entriesUnder fields key)[i]) ∈ steps fields :=
  List.mem_append_right _ (List.mem_flatMap.2 ⟨key, hkey, mem_mapIdx_pair hi⟩)

/-- The literal is that of the node, or it is inside of what stands below the node. -/
def InNode (below : Layouter) (place : Option Address) (fields : Fields) (literal : Layout) :
    Prop :=
  (∃ depth, literal = objectLayout below place fields depth) ∨
    ∃ place' x depth, Leads place fields place' x ∧ Within literal (below place' x depth)

variable {place' : Option Address} {depth' : Nat} {members : List (Member × Layout)}
  {signature : Option Layout}

theorem inNode_objectLayout
    (h : Within (.object place' depth' members signature) (objectLayout below place fields depth)) :
    InNode below place fields (.object place' depth' members signature) := by
  generalize hlayout : objectLayout below place fields depth = l at h
  unfold objectLayout at hlayout
  cases h with
  | refl => exact .inl ⟨depth, hlayout.symm⟩
  | member hmem h =>
    obtain ⟨-, -, rfl, -⟩ := Layout.object.inj hlayout
    obtain ⟨property, hproperty, rfl⟩ := List.mem_map.1 hmem
    exact .inr ⟨_, _, _, .step (mem_steps_property hproperty), h⟩
  | signature h =>
    obtain ⟨-, -, -, hsignature⟩ := Layout.object.inj hlayout
    unfold signatureLayout at hsignature
    split at hsignature
    · cases hsignature
    · rename_i inner hadditional
      rw [← Option.some.inj hsignature] at h
      exact .inr ⟨_, _, _, .apart (hadditional ▸ depth_additionalOf_le fields),
        within_of_loosened h⟩
    · rw [← Option.some.inj hsignature] at h
      cases h
  | _ => cases hlayout

theorem inNode_arrayLayout
    (h : Within (.object place' depth' members signature) (arrayLayout below place fields depth)) :
    InNode below place fields (.object place' depth' members signature) := by
  unfold arrayLayout at h
  split at h
  · cases h
  · rename_i items _ hitems
    cases h with
    | entry hmem h =>
      obtain ⟨i, hi, rfl⟩ := List.mem_mapIdx.1 hmem
      have hsame : Schema.items fields = items := by rw [Schema.items, hitems]
      subst hsame
      exact .inr ⟨_, _, _, .step (mem_steps_item hi), h⟩
  · rename_i inner hitems
    cases h with
    | item h =>
      have hsame : Schema.items fields = [.obj inner] := by rw [Schema.items, hitems]
      have hstep : (Step.item 0, Json.obj inner) ∈ steps fields := by
        have hlength : 0 < (Schema.items fields).length := by rw [hsame]; exact Nat.one_pos
        simpa only [hsame, List.getElem_cons_zero] using mem_steps_item hlength
      exact .inr ⟨_, _, _, .step hstep, h⟩
  · cases h

theorem inNode_nameLayout {name : Json}
    (h : Within (.object place' depth' members signature)
      (nameLayout below place fields depth name)) :
    InNode below place fields (.object place' depth' members signature) := by
  unfold nameLayout at h
  split at h
  · exact inNode_objectLayout h
  · split at h
    · exact inNode_arrayLayout h
    · cases h

theorem not_within_enumLayout :
    ¬ Within (.object place' depth' members signature) (enumLayout fields) := by
  intro h
  unfold enumLayout at h
  split at h
  · cases h
  split at h
  · cases h
  cases h with
  | part hmem h =>
    obtain ⟨value, _, rfl⟩ := List.mem_map.1 hmem
    cases h

/-- Where one keyword decides there is no object literal. -/
theorem not_within_aloneLayout :
    ¬ Within (.object place' depth' members signature) (aloneLayout fields) := by
  intro h
  unfold aloneLayout at h
  split at h
  · cases h
  split at h
  · cases h
  split at h
  · cases h
  exact not_within_enumLayout h

theorem inNode_fieldsLayout
    (h : Within (.object place' depth' members signature) (fieldsLayout below place fields depth)) :
    InNode below place fields (.object place' depth' members signature) := by
  unfold fieldsLayout at h
  split at h
  · exact absurd h not_within_aloneLayout
  cases h with
  | part hmem h =>
    rcases List.mem_append.1 hmem with hown | hcombinator
    · unfold ownLayout at hown
      split at hown
      · rw [List.mem_singleton.1 hown] at h
        cases h with
        | part hname h =>
          obtain ⟨name, _, rfl⟩ := List.mem_map.1 hname
          exact inNode_nameLayout h
      · cases hown
    · obtain ⟨c, hc, hcombinator⟩ := List.mem_flatMap.1 hcombinator
      unfold combinatorLayout at hcombinator
      split at hcombinator
      · cases hcombinator
      · rw [List.mem_singleton.1 hcombinator] at h
        cases h with
        | part hmember h =>
          obtain ⟨i, hi, rfl⟩ := List.mem_mapIdx.1 hmember
          exact .inr ⟨_, _, _, .step (mem_steps_member (mem_combinators_of_join c hc) hi), h⟩
end

section
variable {address : Address} {depth' : Nat} {members : List (Member × Layout)}
  {signature : Option Layout}

/-- An object literal with an address is that of the node at the address, which is reached from
where the layout starts. -/
theorem exists_node_of_layout {levels : Nat} {place : Option Address} {x : Json} {depth : Nat}
    (hdepth : x.depth ≤ levels)
    (h : Within (.object (some address) depth' members signature) (layout levels place x depth)) :
    ∃ start further node below, place = some start ∧ address = start ++ further ∧
      At x further node ∧ Json.depthFields node ≤ below ∧
      .object (some address) depth' members signature =
        objectLayout (layout below) (some address) node depth' := by
  induction levels generalizing place x depth with
  | zero => cases h
  | succ levels ih =>
    cases x with
    | obj fields =>
      rw [layout_obj] at h
      rw [Json.depth, Nat.add_le_add_iff_right] at hdepth
      rcases inNode_fieldsLayout h with ⟨_, heq⟩ | ⟨place', y, _, hleads, h⟩
      · obtain ⟨rfl, rfl, -, -⟩ := Layout.object.inj heq
        exact ⟨address, [], fields, levels, rfl, (List.append_nil _).symm, .here, hdepth, heq⟩
      · obtain ⟨start, further, node, below, hplace, rfl, hat, hbelow, heq⟩ :=
          ih (Nat.le_trans hleads.depth_le hdepth) h
        cases hleads with
        | @step step _ hstep =>
          obtain ⟨before, rfl, rfl⟩ := Option.map_eq_some_iff.1 hplace
          exact ⟨before, step :: further, node, below, rfl, by simp, .through hstep hat, hbelow,
            heq⟩
        | apart _ => cases hplace
    | _ => cases h

theorem exists_node_of_rootLayout {schema : Json}
    (h : Within (.object (some address) depth' members signature) (rootLayout schema)) :
    ∃ node below, At schema address node ∧ Json.depthFields node ≤ below ∧
      .object (some address) depth' members signature =
        objectLayout (layout below) (some address) node depth' := by
  unfold rootLayout at h
  split at h
  · rename_i hinterface
    cases schema with
    | obj fields =>
      have hchildren : (Json.obj fields).depth - 1 = Json.depthFields fields := rfl
      rw [hchildren] at h
      rcases inNode_objectLayout h with ⟨_, heq⟩ | ⟨place', y, _, hleads, h⟩
      · obtain ⟨hplace, rfl, -, -⟩ := Layout.object.inj heq
        obtain rfl := Option.some.inj hplace
        exact ⟨fields, _, .here, Nat.le_refl _, heq⟩
      · obtain ⟨start, further, node, below, hplace, rfl, hat, hbelow, heq⟩ :=
          exists_node_of_layout hleads.depth_le h
        cases hleads with
        | @step step _ hstep =>
          obtain rfl := Option.some.inj hplace
          exact ⟨node, below, .through hstep hat, hbelow, heq⟩
        | apart _ => cases hplace
    | _ => cases hinterface
  · obtain ⟨start, further, node, below, hplace, rfl, hat, hbelow, heq⟩ :=
      exists_node_of_layout (Nat.le_refl _) h
    obtain rfl := Option.some.inj hplace
    exact ⟨node, below, hat, hbelow, heq⟩
end

end SchemaDecl.TypeScript
