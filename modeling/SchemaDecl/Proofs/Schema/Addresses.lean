import Mathlib.Data.List.Nodup
import SchemaDecl.Proofs.Schema.Nodes

/-! Addresses of nodes. A node is reached from the root by steps into properties,
items and the members of combinators, and the nodes of a tree stand in a list
in the order in which a reader comes to them: a node first, then what is below
it, child by child. The path of an address leaves the steps into combinators
out, so it need not say which node is meant. -/

namespace SchemaDecl.Schema

/-- A step from a node to one of its children. -/
inductive Step
  | property (key : Key)
  | item (index : Nat)
  | member (combinator : Key) (index : Nat)
  deriving DecidableEq

abbrev Address := List Step

/-- What a step adds to the path. A member of a combinator stands in the place of its node. -/
def Step.segments : Step → Path
  | .property key => [key.toJson]
  | .item index => [.int index]
  | .member _ _ => []

def Step.isMember : Step → Bool
  | .member _ _ => true
  | _ => false

namespace Address

def path (address : Address) : Path := address.flatMap Step.segments

/-- Whether the way to the node leads through a combinator. -/
def throughCombinator (address : Address) : Bool := address.any Step.isMember

theorem path_cons (step : Step) (address : Address) :
    path (step :: address) = step.segments ++ path address := List.flatMap_cons

end Address

/-- The children of a node with the steps to them. -/
def steps (fields : Fields) : List (Step × Json) :=
  (properties fields).map (fun p => (.property p.1, p.2)) ++
  (items fields).mapIdx (fun i x => (.item i, x)) ++
  combinators.flatMap fun key => (members fields key).mapIdx fun i x => (.member key i, x)

/-- The node at an address. -/
inductive At : Json → Address → Fields → Prop
  | here {fields : Fields} : At (.obj fields) [] fields
  | through {fields node : Fields} {step : Step} {x : Json} {address : Address} :
      (step, x) ∈ steps fields → At x address node → At (.obj fields) (step :: address) node

/-- The nodes on so many levels with their addresses, in order. -/
def nodesWithin : Nat → Json → List (Address × Fields)
  | levels + 1, .obj fields => ([], fields) :: (steps fields).flatMap fun child =>
      (nodesWithin levels child.2).map fun node => (child.1 :: node.1, node.2)
  | _, _ => []

/-- The nodes of a tree with their addresses, in order. -/
def nodes (schema : Json) : List (Address × Fields) := nodesWithin schema.depth schema

/-! Steps and children. -/

theorem map_fst_mapIdx {α β : Type} (f : Nat → β) (xs : List α) :
    (xs.mapIdx fun i x => (f i, x)).map Prod.fst = (List.range xs.length).map f := by
  apply List.ext_getElem <;> simp

theorem children_eq_steps (path : Path) (fields : Fields) :
    children path fields =
      (steps fields).map fun child => (path ++ child.1.segments, child.2) := by
  have hitems : (items fields).mapIdx (fun i item => (path ++ [Json.int i], item)) =
      ((items fields).mapIdx fun i x => (Step.item i, x)).map
        fun child => (path ++ child.1.segments, child.2) := by
    apply List.ext_getElem <;> simp [Step.segments]
  have hmembers : ∀ key, (members fields key).map (fun member => (path, member)) =
      ((members fields key).mapIdx fun i x => (Step.member key i, x)).map
        fun child => (path ++ child.1.segments, child.2) := by
    intro key
    apply List.ext_getElem <;> simp [Step.segments]
  rw [children, steps, List.map_append, List.map_append, List.map_map, List.map_flatMap, hitems]
  refine congrArg₂ _ rfl (List.flatMap_congr fun key _ => hmembers key)

/-- The steps are read off the keywords that hold children. -/
theorem steps_congr {fields fields' : Fields}
    (h : ∀ key ∈ childKeys, Fields.get? fields' key = Fields.get? fields key) :
    steps fields' = steps fields := by
  have hproperties : properties fields' = properties fields := by
    rw [properties, properties, Fields.value_congr (h _ (by simp [childKeys]))]
  have hitems : items fields' = items fields := by
    rw [items, items, Fields.value_congr (h _ (by simp [childKeys]))]
  have hmembers : ∀ key ∈ combinators, members fields' key = members fields key := fun key hkey =>
    members_congr (h key (List.mem_cons_of_mem _ (List.mem_cons_of_mem _ hkey)))
  rw [steps, steps, hproperties, hitems]
  exact congrArg _ (List.flatMap_congr fun key hkey => by rw [hmembers key hkey])

theorem steps_map_snd (fields : Fields) : (steps fields).map Prod.snd = childValues fields := by
  rw [← children_map_snd [], children_eq_steps, List.map_map]
  rfl

theorem steps_map_fst (fields : Fields) :
    (steps fields).map Prod.fst = (properties fields).map (fun p => Step.property p.1) ++
      (List.range (items fields).length).map Step.item ++
        combinators.flatMap fun key =>
          (List.range (members fields key).length).map (Step.member key) := by
  simp only [steps, List.map_append, List.map_flatMap, map_fst_mapIdx, List.map_map,
    Function.comp_def]

/-- From a node whose properties have names of their own no step is taken twice. -/
theorem nodup_steps {fields : Fields} (h : ((properties fields).map Prod.fst).Nodup) :
    ((steps fields).map Prod.fst).Nodup := by
  have hproperties : ((properties fields).map fun p => Step.property p.1).Nodup := by
    have hsteps := h.map (f := Step.property) fun _ _ => Step.property.inj
    rwa [List.map_map] at hsteps
  have hitems : ((List.range (items fields).length).map Step.item).Nodup :=
    List.nodup_range.map fun _ _ => Step.item.inj
  have hmembers : (combinators.flatMap fun key =>
      (List.range (members fields key).length).map (Step.member key)).Nodup := by
    have hkeys : combinators.Nodup := by decide
    refine List.nodup_flatMap.2 ⟨fun key _ =>
      List.nodup_range.map fun _ _ heq => (Step.member.inj heq).2, hkeys.imp ?_⟩
    intro k l hne s hs hs'
    obtain ⟨i, _, rfl⟩ := List.mem_map.1 hs
    obtain ⟨j, _, heq⟩ := List.mem_map.1 hs'
    exact hne (Step.member.inj heq).1.symm
  rw [steps_map_fst, List.nodup_append, List.nodup_append]
  refine ⟨⟨hproperties, hitems, ?_⟩, hmembers, ?_⟩
  · intro s hs t ht
    obtain ⟨p, _, rfl⟩ := List.mem_map.1 hs
    obtain ⟨i, _, rfl⟩ := List.mem_map.1 ht
    exact nofun
  · intro s hs t ht
    obtain ⟨key, _, ht⟩ := List.mem_flatMap.1 ht
    obtain ⟨j, _, rfl⟩ := List.mem_map.1 ht
    rcases List.mem_append.1 hs with hs | hs
    · obtain ⟨p, _, rfl⟩ := List.mem_map.1 hs
      exact nofun
    · obtain ⟨i, _, rfl⟩ := List.mem_map.1 hs
      exact nofun

theorem mem_childValues_of_mem_steps {fields : Fields} {child : Step × Json}
    (h : child ∈ steps fields) : child.2 ∈ childValues fields := by
  rw [← steps_map_snd]
  exact List.mem_map_of_mem h

theorem depth_of_mem_childValues {fields : Fields} {x : Json} (h : x ∈ childValues fields) :
    x.depth ≤ Json.depthFields fields := by
  rw [childValues, List.mem_append, List.mem_append, List.mem_flatMap] at h
  rcases h with h | h | ⟨key, _, h⟩
  · obtain ⟨p, hp, rfl⟩ := List.mem_map.1 h
    unfold properties at hp
    split at hp
    · rename_i ps hps
      have hchild : Child fields p.2 := .property hps hp
      exact hchild.depth_le
    · cases hp
  · exact depth_of_mem_items h
  · exact depth_of_mem_members h

/-- New children stand behind the steps of the old ones. -/
theorem steps_withChildren {fields : Fields} {new : List Json}
    (h : List.Forall₂ Kept (childValues fields) new) :
    steps (withChildren fields new) = ((steps fields).map Prod.fst).zip new := by
  refine List.zip_of_prod ?_ ((steps_map_snd _).trans (childValues_withChildren h))
  have hproperties : (properties (withChildren fields new)).map Prod.fst =
      (properties fields).map Prod.fst := by
    rw [properties_withChildren, Fields.withValues_fst]
  rw [steps_map_fst, steps_map_fst, length_items_withChildren h]
  have hkeys := congrArg (List.map Step.property) hproperties
  simp only [List.map_map, Function.comp_def] at hkeys
  rw [hkeys]
  exact congrArg _ (List.flatMap_congr fun key hkey => by rw [length_members_withChildren h hkey])

theorem children_withChildren {fields : Fields} {new : List Json} (path : Path)
    (h : List.Forall₂ Kept (childValues fields) new) :
    children path (withChildren fields new) = ((children path fields).map Prod.fst).zip new := by
  have hpaths : (children path fields).map Prod.fst =
      ((steps fields).map Prod.fst).map fun step => path ++ step.segments := by
    rw [children_eq_steps, List.map_map, List.map_map]
    rfl
  rw [children_eq_steps path (withChildren fields new), steps_withChildren h, hpaths]
  generalize (steps fields).map Prod.fst = taken
  rw [List.zip_map_left]
  rfl

/-! The nodes of a tree. -/

/-- More levels than the tree is deep make no difference. -/
theorem nodesWithin_eq {levels : Nat} {schema : Json} (h : schema.depth ≤ levels) :
    nodesWithin levels schema = nodes schema := by
  have hall : ∀ (m n : Nat) (x : Json), x.depth ≤ m → x.depth ≤ n →
      nodesWithin m x = nodesWithin n x := by
    intro m
    induction m with
    | zero =>
      intro n x hm _
      cases x with
      | obj fields => simp [Json.depth] at hm
      | _ => cases n <;> rfl
    | succ m ih =>
      intro n x hm hn
      cases x with
      | obj fields =>
        rw [Json.depth] at hm hn
        obtain ⟨n, rfl⟩ : ∃ k, n = k + 1 := ⟨n - 1, by omega⟩
        simp only [nodesWithin]
        refine congrArg _ (List.flatMap_congr fun child hchild => ?_)
        have hle := depth_of_mem_childValues (mem_childValues_of_mem_steps hchild)
        rw [ih n child.2 (by omega) (by omega)]
      | _ => cases n <;> rfl
  exact hall _ _ schema h (Nat.le_refl _)

theorem nodes_obj (fields : Fields) :
    nodes (.obj fields) = ([], fields) :: (steps fields).flatMap fun child =>
      (nodes child.2).map fun node => (child.1 :: node.1, node.2) := by
  have hdepth : (Json.obj fields).depth = Json.depthFields fields + 1 := rfl
  rw [nodes, hdepth, nodesWithin]
  refine congrArg _ (List.flatMap_congr fun child hchild => ?_)
  rw [nodesWithin_eq (depth_of_mem_childValues (mem_childValues_of_mem_steps hchild))]

theorem nodes_of_not_node {schema : Json} (h : ∀ fields, schema ≠ .obj fields) :
    nodes schema = [] := by
  unfold nodes nodesWithin
  split
  · exact absurd rfl (h _)
  · rfl

/-- What holds of a node if it holds of its children, and of all that is no node, holds of all. -/
theorem tree_induction {motive : Json → Prop}
    (hleaf : ∀ schema, (∀ fields, schema ≠ .obj fields) → motive schema)
    (hnode : ∀ fields, (∀ x ∈ childValues fields, motive x) → motive (.obj fields))
    (schema : Json) : motive schema := by
  have hall : ∀ (levels : Nat) (x : Json), x.depth ≤ levels → motive x := by
    intro levels
    induction levels with
    | zero =>
      intro x hx
      refine hleaf x fun fields hobj => ?_
      simp [hobj, Json.depth] at hx
    | succ levels ih =>
      intro x hx
      by_cases hno : ∀ fields, x ≠ .obj fields
      · exact hleaf x hno
      · push Not at hno
        obtain ⟨fields, rfl⟩ := hno
        rw [Json.depth] at hx
        refine hnode fields fun y hy => ih y ?_
        have hle := depth_of_mem_childValues hy
        omega
  exact hall _ schema (Nat.le_refl _)

/-- The list holds every node under its address, and nothing else. -/
theorem mem_nodes {schema : Json} {address : Address} {node : Fields} :
    (address, node) ∈ nodes schema ↔ At schema address node := by
  induction schema using tree_induction generalizing address with
  | hleaf schema hno =>
    rw [nodes_of_not_node hno]
    constructor
    · intro h
      cases h
    · intro h
      cases h <;> exact absurd rfl (hno _)
  | hnode fields ih =>
    simp only [nodes_obj, List.mem_cons, List.mem_flatMap, List.mem_map]
    constructor
    · rintro (heq | ⟨⟨step, x⟩, hchild, ⟨further, node⟩, hnode, heq⟩)
      · obtain ⟨rfl, rfl⟩ := Prod.mk.inj heq
        exact .here
      · obtain ⟨rfl, rfl⟩ := Prod.mk.inj heq
        exact .through hchild ((ih x (mem_childValues_of_mem_steps hchild)).1 hnode)
    · intro h
      cases h with
      | here => exact .inl rfl
      | @through _ _ step x further hchild hat =>
        exact .inr ⟨(step, x), hchild, (further, node),
          (ih x (mem_childValues_of_mem_steps hchild)).2 hat, rfl⟩

/-- One step further down. -/
theorem At.step {schema : Json} {address : Address} {fields node : Fields} {step : Step}
    (h : At schema address fields) (hstep : (step, .obj node) ∈ steps fields) :
    At schema (address ++ [step]) node := by
  induction h with
  | here => exact .through hstep .here
  | through hmem _ ih => exact .through hmem (ih hstep)

/-! Properties of all nodes of a tree. -/

/-- Every node of the tree has the property at its path. -/
def AtEach (P : Path → Fields → Prop) (path : Path) (schema : Json) : Prop :=
  ∀ address node, At schema address node → P (path ++ address.path) node

section
variable {P Q : Path → Fields → Prop} {path : Path} {fields : Fields}

theorem atEach_of_not_node {schema : Json} (h : ∀ fields, schema ≠ .obj fields) :
    AtEach P path schema := by
  intro address node hat
  cases hat <;> exact absurd rfl (h _)

theorem AtEach.root (h : AtEach P path (.obj fields)) : P path fields := by
  have hroot := h [] fields .here
  rwa [Address.path, List.flatMap_nil, List.append_nil] at hroot

theorem AtEach.child (h : AtEach P path (.obj fields)) {child : Path × Json}
    (hchild : child ∈ children path fields) : AtEach P child.1 child.2 := by
  rw [children_eq_steps] at hchild
  obtain ⟨⟨step, x⟩, hstep, rfl⟩ := List.mem_map.1 hchild
  intro address node hat
  have hbelow := h (step :: address) node (.through hstep hat)
  rwa [Address.path_cons, ← List.append_assoc] at hbelow

theorem atEach_obj (hroot : P path fields)
    (hbelow : ∀ child ∈ children path fields, AtEach P child.1 child.2) :
    AtEach P path (.obj fields) := by
  intro address node hat
  cases hat with
  | here => rwa [Address.path, List.flatMap_nil, List.append_nil]
  | @through _ _ step x further hstep hat =>
    have hchild : (path ++ step.segments, x) ∈ children path fields := by
      rw [children_eq_steps]
      exact List.mem_map_of_mem (f := fun c => (path ++ c.1.segments, c.2)) hstep
    rw [Address.path_cons, ← List.append_assoc]
    exact hbelow _ hchild further node hat

/-- New children that have the property everywhere have it at the places of the old ones. -/
theorem atEach_below {new : List Json} (hkept : List.Forall₂ Kept (childValues fields) new)
    (hnew : List.Forall₂ (fun child x => AtEach P child.1 x) (children path fields) new)
    {child : Path × Json} (hchild : child ∈ children path (withChildren fields new)) :
    AtEach P child.1 child.2 := by
  rw [children_withChildren path hkept] at hchild
  have hpaths : List.Forall₂ (fun place x => AtEach P place x)
      ((children path fields).map Prod.fst) new := by
    rwa [List.forall₂_map_left_iff]
  exact List.forall₂_zip hpaths hchild

/-- A node whose new children have the property everywhere. -/
theorem atEach_withChildren {new : List Json} (hkept : List.Forall₂ Kept (childValues fields) new)
    (hroot : P path (withChildren fields new))
    (hnew : List.Forall₂ (fun child x => AtEach P child.1 x) (children path fields) new) :
    AtEach P path (.obj (withChildren fields new)) :=
  atEach_obj hroot fun _ hchild => atEach_below hkept hnew hchild
end

/-- A walk whose visitor leaves each node of a tree alone gives the tree back as it is. -/
theorem walk_of_atEach {visitor : Visitor} {P : Path → Fields → Prop}
    (hvisit : ∀ path fields, P path fields → visitor.visit path fields = fields)
    (hlist : ∀ path fields, P path fields →
      ∀ entries, Fields.value fields "properties" ≠ .arr entries)
    (levels : Nat) {path : Path} {schema : Json} (h : AtEach P path schema) :
    ∃ visits, walk visitor levels path schema = .ok (schema, visits) := by
  induction levels generalizing path schema with
  | zero => exact ⟨[], rfl⟩
  | succ levels ih =>
    cases schema with
    | obj fields =>
      obtain ⟨below, hbelow⟩ := walkAll_of_fixed fun child hchild => ih (h.child hchild)
      rw [children_map_snd] at hbelow
      refine ⟨⟨path, fields⟩ :: below, ?_⟩
      simp only [walk, walkNode, Inversion.bind_eq_ok, Inversion.pure_eq_ok]
      refine ⟨fields, foldNode_of_not_arr (hlist path fields h.root), (childValues fields, below),
        ?_, ?_⟩
      · rw [hvisit path fields h.root]
        exact hbelow
      · rw [hvisit path fields h.root, withChildren_childValues]
    | _ => exact ⟨[], rfl⟩

end SchemaDecl.Schema
