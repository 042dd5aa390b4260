import SchemaDecl.Proofs.Schema.Addresses
import SchemaDecl.Proofs.Schema.Folding
import SchemaDecl.Proofs.Schema.KnownNames
import SchemaDecl.Schema.Visitors

/-! The order of visits. A visitor may rewrite a node before the walk goes on
below it, so the visits follow the tree that is returned and not the one that was
given: they are its nodes, each node once and before everything below it. Where
property names are texts, as they are in every schema that is read, a path leads
to one node only, unless a combinator is on the way. -/

namespace SchemaDecl.Schema

/-! Names of properties. -/

def isText : Key → Bool
  | .str _ => true
  | _ => false

/-- The keys of an object as it is read: texts, and no two of them the same. -/
def TextKeys (properties : Fields) : Prop :=
  (properties.map Prod.fst).Nodup ∧ ∀ p ∈ properties, isText p.1 = true

instance (properties : Fields) : Decidable (TextKeys properties) :=
  inferInstanceAs (Decidable (_ ∧ ∀ p ∈ properties, isText p.1 = true))

/-- In a list of properties, a node has a text for its name. -/
def namedByText : Json → Bool
  | .obj fields => match Fields.value fields "name" with
    | .str _ => true
    | _ => false
  | _ => true

/-- Properties in the form of an object or of a list have texts for names. -/
def TextNamed : Json → Prop
  | .obj properties => TextKeys properties
  | .arr entries => ∀ entry ∈ entries, namedByText entry = true
  | _ => True

instance : DecidablePred TextNamed
  | .obj properties => inferInstanceAs (Decidable (TextKeys properties))
  | .arr entries => inferInstanceAs (Decidable (∀ entry ∈ entries, namedByText entry = true))
  | .null | .bool _ | .int _ | .float _ | .str _ => isTrue trivial

def WellNamed (fields : Fields) : Prop := TextNamed (Fields.value fields "properties")

instance : DecidablePred WellNamed := fun fields =>
  inferInstanceAs (Decidable (TextNamed (Fields.value fields "properties")))

theorem name_of_namedByText {inner : Fields} (h : namedByText (.obj inner) = true) :
    ∃ s, Fields.value inner "name" = .str s := by
  cases hv : Fields.value inner "name" with
  | str s => exact ⟨s, rfl⟩
  | _ =>
    simp only [namedByText, hv] at h
    cases h

theorem foldable_of_wellNamed {fields : Fields} (h : WellNamed fields) : Foldable fields := by
  intro entries hentries entry hentry
  rw [WellNamed, hentries] at h
  cases entry with
  | obj inner =>
    obtain ⟨s, hs⟩ := name_of_namedByText (h _ hentry)
    rw [Nameable, hs]
    exact nofun
  | _ => trivial

/-- Folding a list gives keys that are the names of its entries, and no two the same. -/
theorem textKeys_foldEntries {entries : List Json} {folded : Fields}
    (hfold : foldEntries entries = .ok folded)
    (h : ∀ entry ∈ entries, namedByText entry = true) : TextKeys folded := by
  constructor
  · refine Fields.nodup_of_separate (foldEntries_induction List.Pairwise.nil ?_ hfold)
    intro sofar next entry _ hsofar hnext
    cases entry with
    | obj inner =>
      simp only [foldEntry] at hnext
      split at hnext
      · rw [← Except.ok.inj hnext]
        exact Fields.separate_set hsofar _ _
      · cases hnext
    | _ => exact Except.ok.inj hnext ▸ hsofar
  · intro p hp
    obtain ⟨inner, hinner, hkey⟩ := key_foldEntries hfold hp
    obtain ⟨s, hs⟩ := name_of_namedByText (h _ hinner)
    rw [hs] at hkey
    rw [← Option.some.inj hkey]
    rfl

theorem textKeys_foldNode {fields found : Fields} (h : WellNamed fields)
    (hfold : foldNode fields = .ok found) : TextKeys (properties found) := by
  cases hv : Fields.value fields "properties" with
  | arr entries =>
    rw [WellNamed, hv] at h
    simp only [foldNode, hv, Inversion.bind_eq_ok, Inversion.pure_eq_ok] at hfold
    obtain ⟨folded, hfolded, rfl⟩ := hfold
    rw [properties, Fields.value_set_same fields _ rfl]
    exact textKeys_foldEntries hfolded h
  | obj ps =>
    rw [WellNamed, hv] at h
    rw [foldNode_of_not_arr (by simp [hv])] at hfold
    rw [← Except.ok.inj hfold, properties, hv]
    exact h
  | _ =>
    rw [foldNode_of_not_arr (by simp [hv])] at hfold
    rw [← Except.ok.inj hfold, properties, hv]
    exact ⟨List.nodup_nil, by simp⟩

/-! Visitors that keep the order. -/

/-- What the visitor leaves below a node stood under it before, and it makes no key but texts. -/
structure Visitor.Orderly (visitor : Visitor) : Prop where
  below : ∀ path fields found, foldNode fields = .ok found →
    ∀ x ∈ childValues (visitor.visit path found), Under fields x
  keys : ∀ path found, TextKeys (properties found) →
    TextKeys (properties (visitor.visit path found))

theorem orderly_record : Visitor.record.Orderly where
  below _ _ _ hfold _ hx := .child (child_of_mem_found hfold hx)
  keys _ _ h := h

theorem orderly_prepared (typeName : String) : (Prepared.visitor typeName).Orderly where
  below path fields found hfold x hx := by
    have hsame := (Prepared.children_node typeName path found).2
    exact .child (child_of_mem_found hfold (hsame ▸ hx))
  keys path found h := by
    have hsame : Fields.get? (Prepared.node typeName path found) "properties" =
        Fields.get? found "properties" := Prepared.get?_node_other _ _ _ (by decide)
    show TextKeys (properties (Prepared.node typeName path found))
    rw [properties, Fields.value_congr hsame, ← properties]
    exact h

theorem textKeys_stripProperties {ps : Fields} (h : TextKeys ps) :
    TextKeys (Normal.stripProperties ps) := by
  refine ⟨Fields.nodup_of_separate (Fields.separate_ofList _), fun p hp => ?_⟩
  obtain ⟨g, hg, hkey⟩ := (Fields.mem_ofList hp).1
  obtain ⟨q, hq, rfl⟩ := List.mem_map.1 hg
  have htext := h.2 q hq
  rw [← hkey]
  cases hk : q.1 with
  | str s => rfl
  | _ =>
    rw [hk] at htext
    cases htext

theorem orderly_normal (table : Fields) : (Normal.visitor table).Orderly where
  below path fields found hfold x hx := by
    rw [Normal.visit_eq] at hx
    rcases Normal.child_or_nested_of_mem_node hfold hx with hchild | ⟨xs, rest, hitems, hmem⟩
    · exact .child hchild
    · have hentries : .arr xs ∈ items fields := by simp [items, hitems]
      exact .nested hentries hmem
  keys path found h := by
    rw [Normal.visit_eq, properties, Normal.value_node_properties]
    cases hv : Fields.value found "properties" with
    | obj ps =>
      rw [properties, hv] at h
      exact textKeys_stripProperties h
    | _ => simp [Normal.strippedProperties, TextKeys]

/-! Nodes in order. -/

/-- The properties of every node have texts for keys. -/
def Readable (schema : Json) : Prop :=
  ∀ address node, At schema address node → TextKeys (properties node)

theorem Readable.child {fields : Fields} (h : Readable (.obj fields)) {child : Step × Json}
    (hchild : child ∈ steps fields) : Readable child.2 :=
  fun address node hat => h (child.1 :: address) node (.through hchild hat)

/-- Different steps from a node differ in what they add to the path, unless one of them goes into a
combinator. -/
theorem steps_apart {fields : Fields} (h : TextKeys (properties fields)) :
    ((steps fields).map Prod.fst).Pairwise fun s t => s ≠ t ∧
      (s.isMember = false → t.isMember = false → s.segments ≠ t.segments) := by
  refine (nodup_steps h.1).and ?_
  have hmembers : ∀ s ∈ combinators.flatMap fun key =>
      (List.range (members fields key).length).map (Step.member key), s.isMember ≠ false := by
    intro s hs
    obtain ⟨key, _, hs⟩ := List.mem_flatMap.1 hs
    obtain ⟨i, _, rfl⟩ := List.mem_map.1 hs
    exact nofun
  rw [steps_map_fst, List.pairwise_append, List.pairwise_append]
  refine ⟨⟨?_, ?_, ?_⟩, ?_, fun s hs t ht _ hother => absurd hother (hmembers t ht)⟩
  · rw [List.pairwise_map]
    refine (List.pairwise_map.1 h.1).imp fun {p q} hne _ _ heq => ?_
    have hkey := congrArg Json.toKey? (List.cons.inj heq).1
    rw [Json.toKey?_toJson, Json.toKey?_toJson] at hkey
    exact hne (Option.some.inj hkey)
  · rw [List.pairwise_map]
    exact List.nodup_range.imp fun {i j} hne _ _ heq =>
      hne (Int.ofNat.inj (Json.int.inj (List.cons.inj heq).1))
  · intro s hs t ht
    obtain ⟨p, hp, rfl⟩ := List.mem_map.1 hs
    obtain ⟨i, _, rfl⟩ := List.mem_map.1 ht
    intro _ _ heq
    -- a position is no text
    have hkey : p.1.toJson = .int i := (List.cons.inj heq).1
    have htext := h.2 p hp
    cases hk : p.1 <;> simp [hk, Key.toJson, isText] at hkey htext
  · exact List.pairwise_of_forall_mem_list fun s hs t _ hmember =>
      absurd hmember (hmembers s hs)

theorem segments_length {step : Step} (h : step.isMember = false) : step.segments.length = 1 := by
  cases step with
  | member key index => cases h
  | _ => rfl

/-- The later of two nodes is not above the earlier one, and it has a path of its own unless a
combinator is on the way. -/
def Apart (earlier later : Address × Fields) : Prop :=
  ¬ later.1 <+: earlier.1 ∧ (earlier.1.path = later.1.path →
    earlier.1.throughCombinator = true ∨ later.1.throughCombinator = true)

theorem apart_root {fields : Fields} (step : Step) (node : Address × Fields) :
    Apart ([], fields) (step :: node.1, node.2) := by
  refine ⟨fun hprefix => ?_, fun heq => ?_⟩
  · cases List.prefix_nil.1 hprefix
  · cases hstep : step.isMember with
    | true => exact .inr (by simp [Address.throughCombinator, hstep])
    | false =>
      have hlength := congrArg List.length heq
      rw [Address.path_cons, List.length_append, segments_length hstep, Address.path,
        List.flatMap_nil, List.length_nil] at hlength
      omega

theorem apart_cons {a b : Address × Fields} (step : Step) (h : Apart a b) :
    Apart (step :: a.1, a.2) (step :: b.1, b.2) := by
  refine ⟨fun hprefix => h.1 (List.cons_prefix_cons.1 hprefix).2, fun heq => ?_⟩
  simp only [Address.path_cons, List.append_cancel_left_eq] at heq
  simp only [Address.throughCombinator, List.any_cons, Bool.or_eq_true] at h ⊢
  exact (h.2 heq).imp Or.inr Or.inr

theorem apart_of_steps {s t : Step} (hne : s ≠ t)
    (hsegments : s.isMember = false → t.isMember = false → s.segments ≠ t.segments)
    (a b : Address × Fields) : Apart (s :: a.1, a.2) (t :: b.1, b.2) := by
  refine ⟨fun hprefix => hne (List.cons_prefix_cons.1 hprefix).1.symm, fun heq => ?_⟩
  cases hs : s.isMember with
  | true => exact .inl (by simp [Address.throughCombinator, hs])
  | false =>
    cases ht : t.isMember with
    | true => exact .inr (by simp [Address.throughCombinator, ht])
    | false =>
      simp only [Address.path_cons] at heq
      have hfirst := List.append_inj_left heq
        ((segments_length hs).trans (segments_length ht).symm)
      exact absurd hfirst (hsegments hs ht)

/-- The nodes of a tree with texts for keys, in order, are apart from each other. -/
theorem pairwise_nodes {schema : Json} (h : Readable schema) : (nodes schema).Pairwise Apart := by
  induction schema using tree_induction with
  | hleaf schema hno =>
    rw [nodes_of_not_node hno]
    exact .nil
  | hnode fields ih =>
    rw [nodes_obj, List.pairwise_cons, List.pairwise_flatMap]
    refine ⟨?_, ?_, ?_⟩
    · intro b hb
      obtain ⟨child, _, hb⟩ := List.mem_flatMap.1 hb
      obtain ⟨node, _, rfl⟩ := List.mem_map.1 hb
      exact apart_root child.1 node
    · intro child hchild
      rw [List.pairwise_map]
      refine (ih child.2 (mem_childValues_of_mem_steps hchild) (h.child hchild)).imp ?_
      exact fun hab => apart_cons child.1 hab
    · have hsteps := steps_apart (h [] fields .here)
      rw [List.pairwise_map] at hsteps
      refine hsteps.imp fun {c d} hcd a ha b hb => ?_
      obtain ⟨node, _, rfl⟩ := List.mem_map.1 ha
      obtain ⟨node', _, rfl⟩ := List.mem_map.1 hb
      exact apart_of_steps hcd.1 hcd.2 node node'

/-! Visits. -/

/-- The node was visited there: it is what the visitor made of the fields it was given, with other
children. -/
structure Visited (visitor : Visitor) (start : Path) (visit : Visit) (node : Address × Fields) :
    Prop where
  path : visit.path = start ++ node.1.path
  fields : ∃ new, List.Forall₂ Kept (childValues (visitor.visit visit.path visit.fields)) new ∧
    node.2 = withChildren (visitor.visit visit.path visit.fields) new

theorem Visited.cons {visitor : Visitor} {start : Path} {step : Step} {visit : Visit}
    {node : Address × Fields} (h : Visited visitor (start ++ step.segments) visit node) :
    Visited visitor start visit (step :: node.1, node.2) where
  path := by rw [h.path, Address.path_cons, List.append_assoc]
  fields := h.fields

/-- What was visited below the children is visited below the node, one child after the other. -/
theorem visited_below {visitor : Visitor} {path : Path} {taken : List (Step × Json)}
    {results : List (Json × List Visit)}
    (h : List.Forall₂ (fun child result =>
      List.Forall₂ (Visited visitor (path ++ child.1.segments)) result.2 (nodes result.1))
      taken results) :
    List.Forall₂ (Visited visitor path) (results.map Prod.snd).flatten
      (((taken.map Prod.fst).zip (results.map Prod.fst)).flatMap fun child =>
        (nodes child.2).map fun node => (child.1 :: node.1, node.2)) := by
  induction h with
  | nil => exact .nil
  | cons hfirst _ ih =>
    refine List.rel_append ?_ ih
    rw [List.forall₂_map_right_iff]
    exact hfirst.imp fun _ _ hvisited => hvisited.cons

/-- A node is visited before its children. -/
theorem visited_withChildren {visitor : Visitor} {path : Path} {found : Fields}
    {results : List (Json × List Visit)}
    (hkept : List.Forall₂ Kept (childValues (visitor.visit path found)) (results.map Prod.fst))
    (hbelow : List.Forall₂
      (fun child result => List.Forall₂ (Visited visitor child.1) result.2 (nodes result.1))
      (children path (visitor.visit path found)) results) :
    List.Forall₂ (Visited visitor path) (⟨path, found⟩ :: (results.map Prod.snd).flatten)
      (nodes (.obj (withChildren (visitor.visit path found) (results.map Prod.fst)))) := by
  rw [nodes_obj, steps_withChildren hkept]
  refine .cons ⟨(List.append_nil path).symm, _, hkept, rfl⟩ (visited_below ?_)
  rwa [children_eq_steps, List.forall₂_map_left_iff] at hbelow

theorem readable_withChildren {fields : Fields} {new : List Json}
    (hkept : List.Forall₂ Kept (childValues fields) new) (hkeys : TextKeys (properties fields))
    (hnew : ∀ x ∈ new, Readable x) : Readable (.obj (withChildren fields new)) := by
  intro address node hat
  cases hat with
  | here =>
    have hsame : (properties (withChildren fields new)).map Prod.fst =
        (properties fields).map Prod.fst := by
      rw [properties_withChildren, Fields.withValues_fst]
    refine ⟨hsame ▸ hkeys.1, fun p hp => ?_⟩
    obtain ⟨q, hq, heq⟩ := key_of_mem_withChildren hp
    rw [← heq]
    exact hkeys.2 q hq
  | through hstep hat =>
    rw [steps_withChildren hkept] at hstep
    exact hnew _ (List.of_mem_zip hstep).2 _ _ hat

/-! Walks. -/

namespace Visitor.Orderly
variable {visitor : Visitor} {path : Path} {fields found : Fields} {child : Path × Json}

theorem under (hv : visitor.Orderly) (hfold : foldNode fields = .ok found)
    (hchild : child ∈ children path (visitor.visit path found)) : Under fields child.2 := by
  refine hv.below path fields found hfold child.2 ?_
  rw [← children_map_snd path]
  exact List.mem_map_of_mem hchild

theorem shallow (hv : visitor.Orderly) : visitor.Shallow :=
  fun _ _ _ hfold _ hchild => (hv.under hfold hchild).depth_le

theorem foldable (hv : visitor.Orderly) {schema : Json} (h : Everywhere WellNamed schema)
    {further : Path} {node : Fields} (hcomes : Comes visitor path schema further node) :
    Foldable node := by
  have hnode : Everywhere WellNamed (.obj node) :=
    Comes.induction (fun _ x => Everywhere WellNamed x)
      (fun _ _ _ hgiven hfold _ hchild => hgiven.under (hv.under hfold hchild)) hcomes h
  exact foldable_of_wellNamed hnode.root

theorem traverse_total (hv : visitor.Orderly) (path : Path) {schema : Json}
    (h : Everywhere WellNamed schema) :
    ∃ result visits, traverse visitor path schema = .ok (result, visits) :=
  walk_total hv.shallow (Nat.le_add_right _ _) fun _ _ hcomes => hv.foldable h hcomes

/-- A walk over a tree whose properties have texts for names makes a tree whose properties have, and
the visits are the nodes of that tree in order. -/
theorem visited (hv : visitor.Orderly) {schema result : Json} {visits : List Visit}
    (h : Everywhere WellNamed schema)
    (hwalk : traverse visitor path schema = .ok (result, visits)) :
    Readable result ∧ List.Forall₂ (Visited visitor path) visits (nodes result) := by
  refine (walk_made (fun _ x => Everywhere WellNamed x)
    (fun start made visits =>
      Readable made ∧ List.Forall₂ (Visited visitor start) visits (nodes made))
    ?_ ?_ ?_ (Nat.le_add_right _ _) h hwalk).2
  · intro start schema hno _
    rw [nodes_of_not_node hno]
    refine ⟨fun address node hat => ?_, .nil⟩
    cases hat <;> exact absurd rfl (hno _)
  · intro start fields found hgiven hfold child hchild
    have hunder := hv.under hfold hchild
    exact ⟨hunder.depth_le, hgiven.under hunder⟩
  · intro start fields found results hgiven hfold hkept hbelow
    have hkeys := hv.keys start found (textKeys_foldNode hgiven.root hfold)
    refine ⟨readable_withChildren hkept hkeys fun x hx => ?_,
      visited_withChildren hkept (hbelow.imp fun _ _ hchild => hchild.2)⟩
    obtain ⟨made, hmade, rfl⟩ := List.mem_map.1 hx
    obtain ⟨_, _, hreadable, _⟩ := mem_right_of_forall₂ hbelow hmade
    exact hreadable
end Visitor.Orderly

/-- Over a schema whose properties have texts for names, the visitor that records, the one that
normalizes and the one that prepares all come to the nodes of the tree they return, to each of them
once, in order and under its own path; only below combinators may a path stand for several nodes. -/
theorem visits_enumerate {visitor : Visitor}
    (hv : visitor = .record ∨ (∃ table, visitor = Normal.visitor table) ∨
      ∃ typeName, visitor = Prepared.visitor typeName)
    {schema : Json} (h : Everywhere WellNamed schema) (start : Path) :
    ∃ result visits, traverse visitor start schema = .ok (result, visits) ∧
      List.Forall₂ (Visited visitor start) visits (nodes result) ∧
      (∀ address node, (address, node) ∈ nodes result ↔ At result address node) ∧
      (nodes result).Pairwise Apart := by
  have hv : visitor.Orderly := by
    rcases hv with rfl | ⟨table, rfl⟩ | ⟨typeName, rfl⟩
    · exact orderly_record
    · exact orderly_normal table
    · exact orderly_prepared typeName
  obtain ⟨result, visits, hwalk⟩ := hv.traverse_total start h
  obtain ⟨hreadable, hvisited⟩ := hv.visited h hwalk
  exact ⟨result, visits, hwalk, hvisited, fun _ _ => mem_nodes, pairwise_nodes hreadable⟩

/-- A list of properties, a list of items and a combinator whose member stands in the place of its
node. -/
def mixed : Json :=
  .obj [("type", .str "array"), ("items", .arr [.obj [("oneOf", .arr [.obj [], .null])], .obj []]),
    ("properties", .arr [.obj [("name", .str "a")], .bool true, .obj [("name", .str "b")]])]

theorem visits_enumerate_mixed :
    Everywhere WellNamed mixed ∧
      ∃ result visits, traverse (Normal.visitor TypeNames.builtin) [.str "x"] mixed =
          .ok (result, visits) ∧
        List.Forall₂ (Visited (Normal.visitor TypeNames.builtin) [.str "x"]) visits (nodes result) ∧
        (∀ address node, (address, node) ∈ nodes result ↔ At result address node) ∧
        (nodes result).Pairwise Apart := by
  have hcheck : checkNodes (fun fields => decide (WellNamed fields)) 4 mixed = true := by
    decide +kernel
  have hnamed : Everywhere WellNamed mixed := everywhere_of_checkNodes hcheck
  exact ⟨hnamed, visits_enumerate (.inr (.inl ⟨_, rfl⟩)) hnamed [.str "x"]⟩

end SchemaDecl.Schema
