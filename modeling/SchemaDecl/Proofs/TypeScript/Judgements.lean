import SchemaDecl.Proofs.TypeScript.GrowthLaws
import SchemaDecl.Proofs.TypeScript.InterfaceBodies
import SchemaDecl.Proofs.TypeScript.Texts

/-! Judgements about renderings. A judgement compares two computations that may
differ in the hints they are given for the names of enums; it says which names
of types they report as unknown and what is true of their result. If it is
closed under the steps of a computation and holds of the declaration of each
enum, then it holds of the rendering of a whole schema, with the names that
`reported` reads off the schema. -/

namespace SchemaDecl.TypeScript

open RenderM

def reportUnknown (name : Json) : RenderM Unit :=
  modify fun state => { state with events := state.events ++ [.unknownType name] }

/-- Two computations report these names, and their results have this property. -/
structure Judgement where
  Holds : {α : Type} → List Json → (α → Prop) → RenderM α → RenderM α → Prop
  lift {α : Type} {Q : α → Prop} {x : Except TypeFault α} :
    (∀ a, x = .ok a → Q a) → Holds [] Q (liftM x) (liftM x)
  bind {α β : Type} {names more : List Json} {Q : α → Prop} {R : β → Prop} {x y : RenderM α}
    {f g : α → RenderM β} : Holds names Q x y → (∀ a, Q a → Holds more R (f a) (g a)) →
      Holds (names ++ more) R (x >>= f) (y >>= g)
  unknown (name : Json) : Holds [name] (fun _ => True) (reportUnknown name) (reportUnknown name)

namespace Judgement

variable (J : Judgement) {α β : Type} {names : List Json} {Q : α → Prop} {R : β → Prop}

theorem pure {a : α} (h : Q a) : J.Holds [] Q (pure a) (pure a) :=
  J.lift (x := .ok a) fun _ ha => Except.ok.inj ha ▸ h

theorem map {x y : RenderM α} {f : α → β} (h : J.Holds names Q x y) (hf : ∀ a, Q a → R (f a)) :
    J.Holds names R (x >>= fun a => Pure.pure (f a)) (y >>= fun a => Pure.pure (f a)) := by
  have hbind := J.bind h fun a ha => J.pure (hf a ha)
  rwa [List.append_nil] at hbind

theorem then_lift {x y : RenderM α} {f : α → Except TypeFault β} (h : J.Holds names Q x y)
    (hf : ∀ a, Q a → ∀ b, f a = .ok b → R b) :
    J.Holds names R (x >>= fun a => liftM (f a)) (y >>= fun a => liftM (f a)) := by
  have hbind := J.bind h fun a ha => J.lift (hf a ha)
  rwa [List.append_nil] at hbind

theorem mapM {γ : Type} {xs : List γ} {report : γ → List Json} {f g : γ → RenderM α}
    (h : ∀ x ∈ xs, J.Holds (report x) Q (f x) (g x)) :
    J.Holds (xs.flatMap report) (fun results => ∀ a ∈ results, Q a) (xs.mapM f) (xs.mapM g) := by
  induction xs with
  | nil =>
    rw [List.mapM_nil, List.mapM_nil]
    exact J.pure (by simp)
  | cons x xs ih =>
    have hrest := ih fun y hy => h y (List.mem_cons_of_mem _ hy)
    rw [List.mapM_cons, List.mapM_cons]
    refine J.bind (h x List.mem_cons_self) fun a ha => J.map hrest fun results hresults => ?_
    intro b hb
    rcases List.mem_cons.1 hb with rfl | hb
    · exact ha
    · exact hresults b hb

end Judgement

/-! The names a schema reports. -/

/-- Whether there is a type for the name. -/
def isKnown : Json → Bool
  | .str name => name = "object" || name = "array" || (primitive? name).isSome
  | _ => false

def unknownIn (name : Json) : List Json := if isKnown name then [] else [name]

/-- What is rendered below a node for one of the names in its `type`. -/
def partsUnder (fields : Fields) (name : Json) : List Json :=
  if name = .str "object" then
    (propertiesOf fields).map Prod.snd ++ objectUnder fields "additionalProperties"
  else if name = .str "array" then entriesUnder fields "items" ++ objectUnder fields "items"
  else []

section
variable (below : Json → List Json)

def reportedStructure (fields : Fields) : List Json :=
  if hasStructure fields then
    (typeNames fields).flatMap fun name => (partsUnder fields name).flatMap below ++ unknownIn name
  else []

def reportedMembers (fields : Fields) : List Json :=
  combinatorJoins.flatMap fun c => (entriesUnder fields c.1).flatMap below

def reportedNode : Json → List Json
  | .obj fields =>
    if decidesAlone fields then []
    else reportedStructure below fields ++ reportedMembers below fields
  | _ => []
end

def reported : Nat → Json → List Json
  | 0 => fun _ => []
  | levels + 1 => reportedNode (reported levels)

/-! Nodes. -/

/-- What has to be known about a single node. -/
structure Node (J : Judgement) (D P : String → Prop) (fields : Fields) : Prop where
  type : ∀ value, Fields.get? fields "tsType" = some value → P (TypeText.ofJson value).display
  const : ∀ value, Fields.get? fields "const" = some value → ∀ s ∈ value.texts, D s
  enum : ∀ value ∈ entriesUnder fields "enum", ∀ s ∈ value.texts, D s
  property : ∀ p ∈ propertiesOf fields, D p.1.display
  described : ∀ text, Fields.value fields "description" = .str text → D text
  declared : ∀ hint hint', (entriesUnder fields "enum").isEmpty = false →
    (entriesUnder fields "tsEnumNames").length = (entriesUnder fields "enum").length →
    J.Holds [] P (declareEnum hint (entriesUnder fields "tsEnumNames") (entriesUnder fields "enum"))
      (declareEnum hint' (entriesUnder fields "tsEnumNames") (entriesUnder fields "enum"))

theorem objectUnder_additional {fields : Fields} :
    objectUnder fields "additionalProperties" = match additionalOf fields with
      | .obj inner => [.obj inner]
      | _ => [] := by
  unfold objectUnder additionalOf Fields.value
  cases Fields.get? fields "additionalProperties" <;> rfl

section
variable (J : Judgement) {D P : String → Prop} (hP : RendersInto D P) {options : Options}
include hP

section
variable {fields : Fields} (hnode : Node J D P fields)
include hnode

theorem holds_renderEnum (hint hint' : String) :
    J.Holds [] (fun type => P type.display) (renderEnum fields hint)
      (renderEnum fields hint') := by
  rw [renderEnum_eq, renderEnum_eq]
  split
  · exact J.pure (hP.quiet (w := "never") (by decide))
  · rename_i hsome
    split
    · rename_i hlength
      exact J.map (hnode.declared hint hint' (by simpa using hsome) hlength) fun _ h => h
    · refine J.lift fun type htype => hP.join (by decide) (by decide) ?_ htype
      intro t ht
      obtain ⟨value, hvalue, rfl⟩ := List.mem_map.1 ht
      exact hP.printsInto.print value (hnode.enum value hvalue)
end

variable {renderer : Renderer} {fields : Fields} {below : Json → List Json}
  (hparts : ∀ x, Part fields x → ∀ depth hint hint',
    J.Holds (below x) (fun type => P type.display) (renderer x depth hint)
      (renderer x depth hint'))
include hparts

theorem holds_renderArray (depth : Nat) (hint hint' : String) :
    J.Holds ((partsUnder fields (.str "array")).flatMap below) P
      (renderArray renderer fields depth hint) (renderArray renderer fields depth hint') := by
  have hunder : partsUnder fields (.str "array") =
      entriesUnder fields "items" ++ objectUnder fields "items" := rfl
  have hunknown : P "unknown[]" := hP.quiet (by decide)
  rw [hunder]
  cases hitems : Fields.value fields "items" with
  | arr items =>
    have hentries : ∀ x ∈ items, Part fields x := by
      intro x hx
      refine .entry ?_
      rw [entriesUnder, hitems]
      exact hx
    simp only [renderArray, entriesUnder, objectUnder, hitems, List.append_nil]
    cases items with
    | nil => exact J.pure hunknown
    | cons item items =>
      refine J.then_lift (J.mapM fun x hx => hparts x (hentries x hx) depth hint hint') ?_
      exact fun types htypes text htext => hP.tuple htypes htext
  | obj item =>
    simp only [renderArray, entriesUnder, objectUnder, hitems, List.nil_append,
      List.flatMap_cons, List.flatMap_nil, List.append_nil]
    refine J.then_lift (hparts _ (.item hitems) depth hint hint') ?_
    exact fun type htype text htext => hP.arrayOf htype htext
  | _ =>
    simp only [renderArray, entriesUnder, objectUnder, hitems]
    exact J.pure hunknown

theorem holds_additionalType (depth : Nat) :
    J.Holds ((objectUnder fields "additionalProperties").flatMap below)
      (fun type => P type.display) (additionalType renderer depth (additionalOf fields))
      (additionalType renderer depth (additionalOf fields)) := by
  rw [objectUnder_additional]
  cases hvalue : additionalOf fields with
  | obj inner =>
    simp only [List.flatMap_cons, List.flatMap_nil, List.append_nil]
    exact hparts _ (.additional (value_of_additionalOf hvalue)) _ _ _
  | _ => exact J.pure (hP.quiet (w := "unknown") (by decide))

theorem holds_renderCombinator (depth : Nat) (hint hint' : String) {c : Key × String}
    (hc : c ∈ combinatorJoins) :
    J.Holds ((entriesUnder fields c.1).flatMap below) (fun types => ∀ t ∈ types, P t.display)
      (renderCombinator renderer fields depth hint c)
      (renderCombinator renderer fields depth hint' c) := by
  have hseparator : c.2.toList.all isQuiet = true ∧ c.2 ≠ "" := by
    revert c
    decide
  rw [renderCombinator_eq, renderCombinator_eq]
  split
  · rename_i hnone
    rw [hnone]
    exact J.pure (by simp)
  · have hmembers := J.mapM fun x hx => hparts x (.member hc hx) depth hint hint'
    have hjoin := J.bind hmembers fun types htypes =>
      J.map (J.lift fun type htype => hP.join hseparator.1 hseparator.2 htypes htype)
        (R := fun types => ∀ t ∈ types, P t.display) (f := fun type => [type]) (by simp)
    rwa [List.append_nil] at hjoin

variable (hindent : options.indent.toList.all isQuiet = true)
  (hstrict : options.strictIndexSignatures = false)
include hindent

omit hP hparts in
theorem isQuiet_indentation (depth : Nat) :
    (indentation options depth).toList.all isQuiet = true := by
  refine List.all_eq_true.2 fun c hc => ?_
  rw [indentation, String.toList_join, List.mem_flatMap] at hc
  obtain ⟨s, hs, hc⟩ := hc
  rw [List.eq_of_mem_replicate hs] at hc
  exact List.all_eq_true.1 hindent c hc

omit hparts in
theorem objectText_closed (depth : Nat) {members : List String} (h : ∀ m ∈ members, P m) :
    P (objectText options depth members) := by
  unfold objectText
  split
  · exact hP.braces hP.empty
  · have hlines : P (String.intercalate "\n" members) :=
      hP.intercalate (by decide) (by decide) h
    have hinside := hP.behind (hP.behind (hP.before (w := "\n") (by decide) hlines)
      (w := "\n") (by decide)) (isQuiet_indentation hindent depth)
    have hbraces := hP.braces hinside
    have hopen : "\x7b\n" = "\x7b" ++ "\n" := by decide
    rw [hopen]
    simpa only [String.append_assoc] using hbraces

theorem holds_renderProperty (hnode : Throughout (Node J D P) (.obj fields)) (depth : Nat)
    {p : Key × Json} (hp : p ∈ propertiesOf fields) :
    J.Holds (below p.2) (fun lines => ∀ line ∈ lines, P line)
      (renderProperty options renderer fields depth p)
      (renderProperty options renderer fields depth p) := by
  have hspace := isQuiet_indentation hindent (depth + 1)
  have hname := hP.memberName (hnode.root.property p hp)
  refine J.map (hparts p.2 (.property hp) _ _ _) fun type htype line hline => ?_
  rcases List.mem_append.1 hline with hcomment | hmember
  · have hsome := Option.mem_toList.1 hcomment
    split at hsome
    · rename_i node hobj
      cases hv : Fields.value node "description" with
      | str text =>
        rw [hv] at hsome
        have hbelow : Throughout (Node J D P) (.obj node) := hobj ▸ hnode.part (.property hp)
        exact hP.comment hspace (hbelow.root.described text hv) hsome
      | _ =>
        rw [hv] at hsome
        cases hsome
    · cases hsome
  · have hmark : (if isRequired fields p.1 then "" else "?").toList.all isQuiet = true := by
      split <;> decide
    rw [List.mem_singleton.1 hmember]
    exact hP.behind (hP.across (hP.behind (hP.before hspace hname) hmark) (w := ": ") (by decide)
      (by decide) htype) (by decide)

include hstrict

theorem holds_renderIndexSignature (depth : Nat) :
    J.Holds ((objectUnder fields "additionalProperties").flatMap below)
      (fun lines => ∀ line ∈ lines, P line) (renderIndexSignature options renderer fields depth)
      (renderIndexSignature options renderer fields depth) := by
  rw [renderIndexSignature_eq]
  split
  · rename_i hclosed
    rw [objectUnder_additional, hclosed]
    exact J.pure (by simp)
  · simp only [signatureType, hstrict, Bool.false_eq_true, if_false, pure_bind]
    refine J.map (holds_additionalType J hP hparts depth) fun type htype line hline => ?_
    rw [List.mem_singleton.1 hline]
    have hkey : (indentation options (depth + 1) ++ "[k: string]: ").toList.all isQuiet = true := by
      rw [String.toList_append, List.all_append, isQuiet_indentation hindent, Bool.true_and]
      decide
    exact hP.behind (hP.before hkey htype) (by decide)

theorem holds_renderObject (hnode : Throughout (Node J D P) (.obj fields)) (depth : Nat) :
    J.Holds ((partsUnder fields (.str "object")).flatMap below) P
      (renderObject options renderer fields depth)
      (renderObject options renderer fields depth) := by
  have hunder : (partsUnder fields (.str "object")).flatMap below =
      (propertiesOf fields).flatMap (fun p => below p.2) ++
        (objectUnder fields "additionalProperties").flatMap below := by
    rw [partsUnder, if_pos rfl, List.flatMap_append, List.flatMap_map]
  rw [hunder]
  refine J.bind (J.mapM fun p hp => holds_renderProperty J hP hparts hindent hnode depth hp)
    fun members hmembers => ?_
  refine J.map (holds_renderIndexSignature J hP hparts hindent hstrict depth)
    fun signature hsignature => objectText_closed hP hindent depth fun line hline => ?_
  rcases List.mem_append.1 hline with hline | hline
  · obtain ⟨lines, hlines, hline⟩ := List.mem_flatten.1 hline
    exact hmembers lines hlines line hline
  · exact hsignature line hline

omit hparts hindent hstrict in
theorem holds_primitiveType {name : Json} (hobject : name ≠ .str "object")
    (harray : name ≠ .str "array") :
    J.Holds (unknownIn name) (fun type => P type.display) (primitiveType name)
      (primitiveType name) := by
  have hunknown : J.Holds [name] (fun type => P type.display)
      (reportUnknown name >>= fun _ => pure (TypeText.text "unknown"))
      (reportUnknown name >>= fun _ => pure (TypeText.text "unknown")) :=
    J.map (J.unknown name) fun _ _ => hP.quiet (w := "unknown") (by decide)
  cases name with
  | str s =>
    have hknown : unknownIn (.str s) = if (primitive? s).isSome then [] else [.str s] := by
      have hs : s ≠ "object" ∧ s ≠ "array" :=
        ⟨fun h => hobject (h ▸ rfl), fun h => harray (h ▸ rfl)⟩
      simp [unknownIn, isKnown, hs]
    rw [hknown]
    cases hprimitive : primitive? s with
    | none =>
      simp only [primitiveType, hprimitive]
      exact hunknown
    | some type =>
      have hwords : ∀ t ∈ ["string", "number", "boolean", "null", "any"],
          t.toList.all isQuiet = true := by decide
      have hmem : type ∈ ["string", "number", "boolean", "null", "any"] := by
        unfold primitive? at hprimitive
        split at hprimitive
        all_goals first
          | (cases hprimitive; done)
          | (rw [← Option.some.inj hprimitive]; simp)
      simp only [primitiveType, hprimitive]
      exact J.pure (hP.quiet (w := type) (hwords type hmem))
  | _ => exact hunknown

theorem holds_renderTypeName (hnode : Throughout (Node J D P) (.obj fields)) (depth : Nat)
    (hint hint' : String)
    (name : Json) :
    J.Holds ((partsUnder fields name).flatMap below ++ unknownIn name)
      (fun type => P type.display) (renderTypeName options renderer fields depth hint name)
      (renderTypeName options renderer fields depth hint' name) := by
  by_cases hobject : name = .str "object"
  · rw [hobject, renderTypeName_object, renderTypeName_object]
    have hnone : unknownIn (.str "object") = [] := rfl
    rw [hnone, List.append_nil]
    exact J.map (holds_renderObject J hP hparts hindent hstrict hnode depth) fun _ h => h
  · by_cases harray : name = .str "array"
    · rw [harray, renderTypeName_array, renderTypeName_array]
      have hnone : unknownIn (.str "array") = [] := rfl
      rw [hnone, List.append_nil]
      exact J.map (holds_renderArray J hP hparts depth hint hint') fun _ h => h
    · rw [renderTypeName_other _ _ _ _ _ hobject harray,
        renderTypeName_other _ _ _ _ _ hobject harray, partsUnder, if_neg hobject, if_neg harray,
        List.flatMap_nil, List.nil_append]
      exact holds_primitiveType J hP hobject harray

theorem holds_renderNames (hnode : Throughout (Node J D P) (.obj fields)) (depth : Nat)
    (hint hint' : String)
    (names : List Json) :
    J.Holds (names.flatMap fun name => (partsUnder fields name).flatMap below ++ unknownIn name)
      (fun types => ∀ t ∈ types, P t.display)
      (renderNames options renderer depth hint fields names)
      (renderNames options renderer depth hint' fields names) := by
  have hname := holds_renderTypeName J hP hparts hindent hstrict hnode depth hint hint'
  have hstill : ∀ name, afterName options fields name = fields := by
    intro name
    rw [afterName, hstrict]
    rfl
  induction names with
  | nil => exact J.pure (by simp)
  | cons name names ih =>
    cases names with
    | nil =>
      rw [List.flatMap_singleton]
      exact J.map (hname name) (f := fun type => [type]) (by simp)
    | cons next names =>
      simp only [renderNames, hstill]
      rw [List.flatMap_cons]
      refine J.bind (hname name) fun type htype => J.map ih fun types htypes t ht => ?_
      rcases List.mem_cons.1 ht with rfl | ht
      · exact htype
      · exact htypes t ht

theorem holds_ownType (hnode : Throughout (Node J D P) (.obj fields)) (depth : Nat)
    (hint hint' : String) :
    J.Holds (reportedStructure below fields) (fun types => ∀ t ∈ types, P t.display)
      (ownType options renderer fields depth hint)
      (ownType options renderer fields depth hint') := by
  unfold ownType reportedStructure
  split
  · have hnames := holds_renderNames J hP hparts hindent hstrict hnode depth hint hint'
      (typeNames fields)
    have hjoin : ∀ types : List TypeText, (∀ t ∈ types, P t.display) → ∀ type : TypeText,
        TypeText.join " | " types = .ok type → P type.display :=
      fun types htypes type htype => hP.join (by decide) (by decide) htypes htype
    exact J.map (J.then_lift hnames hjoin) (f := fun type => [type]) (by simp)
  · exact J.pure (by simp)

theorem holds_renderParts (hnode : Throughout (Node J D P) (.obj fields)) (depth : Nat)
    (hint hint' : String) :
    J.Holds (reportedStructure below fields ++ reportedMembers below fields)
      (fun type => P type.display) (renderParts options renderer fields depth hint)
      (renderParts options renderer fields depth hint') := by
  rw [renderParts_eq, renderParts_eq]
  refine J.bind (holds_ownType J hP hparts hindent hstrict hnode depth hint hint')
    fun own hown => ?_
  refine J.then_lift (J.mapM fun c hc => holds_renderCombinator J hP hparts depth hint hint' hc)
    fun joined hjoined type htype => ?_
  refine hP.join (by decide) (by decide) (fun t ht => ?_) htype
  rcases List.mem_append.1 ht with ht | ht
  · exact hown t ht
  · obtain ⟨types, htypes, ht⟩ := List.mem_flatten.1 ht
    exact hjoined types htypes t ht

theorem holds_renderFields (hnode : Throughout (Node J D P) (.obj fields)) (depth : Nat)
    (hint hint' : String) :
    J.Holds (reportedNode below (.obj fields)) (fun type => P type.display)
      (renderFields options renderer fields depth hint)
      (renderFields options renderer fields depth hint') := by
  unfold renderFields reportedNode decidesAlone
  cases htype : Fields.get? fields "tsType" with
  | some value =>
    simp only [List.any_cons, Fields.contains, htype, Option.isSome_some, Bool.true_or,
      Bool.or_true, if_true]
    exact J.pure (hnode.root.type value htype)
  | none =>
    by_cases hany : (Fields.value fields "__is_any__").truthy = true
    · simp only [hany, if_true, Bool.true_or]
      exact J.pure (hP.quiet (w := "any") (by decide))
    · simp only [hany, Bool.false_or]
      cases hconst : Fields.get? fields "const" with
      | some value =>
        simp only [List.any_cons, Fields.contains, htype, hconst, Option.isSome_some,
          Option.isSome_none, Bool.false_or, Bool.true_or, if_true]
        exact J.pure (hP.printsInto.print value (hnode.root.const value hconst))
      | none =>
        by_cases henum : Fields.contains fields "enum" = true
        · have halone : (["tsType", "const", "enum"].any fun key =>
              Fields.contains fields (.str key)) = true := by simp [henum]
          simp only [henum, halone, if_true]
          exact holds_renderEnum J hP hnode.root hint hint'
        · rw [Bool.not_eq_true] at henum
          have hothers : Fields.contains fields "tsType" = false ∧
              Fields.contains fields "const" = false := by
            simp only [Fields.contains, htype, hconst, Option.isSome_none, and_self]
          have halone : (["tsType", "const", "enum"].any fun key =>
              Fields.contains fields (.str key)) = false := by simp [henum, hothers]
          simp only [henum, halone, Bool.false_eq_true, if_false]
          exact holds_renderParts J hP hparts hindent hstrict hnode depth hint hint'
end

/-! Whole schemas. -/

section
variable (J : Judgement) {D P : String → Prop} (hP : RendersInto D P) {options : Options}
  (hindent : options.indent.toList.all isQuiet = true)
  (hstrict : options.strictIndexSignatures = false)
include hP hindent hstrict

/-- A judgement holds of the rendering of a whole schema, by induction on the levels. -/
theorem holds_render (levels : Nat) {schema : Json} (h : Throughout (Node J D P) schema)
    (depth : Nat) (hint hint' : String) :
    J.Holds (reported levels schema) (fun type => P type.display)
      (render options levels schema depth hint) (render options levels schema depth hint') := by
  have hunknown : P "unknown" := hP.quiet (by decide)
  induction levels generalizing schema depth hint hint' with
  | zero => exact J.pure hunknown
  | succ levels ih =>
    cases schema with
    | obj fields =>
      exact holds_renderFields J hP (fun x hx => ih (h.part hx)) hindent hstrict h depth
        hint hint'
    | _ => exact J.pure hunknown

/-! The root. -/

/-- What stands in the declaration of the root behind its name. -/
def rootText (options : Options) (schema : Json) (hint : String) : RenderM String :=
  if isInterface schema then
    renderObject options (render options (schema.depth - 1)) (fieldsOf schema) 0
  else render options schema.depth schema 0 hint >>= fun type => pure type.display

def rootDeclaration (schema : Json) (name text : String) : RootDeclaration :=
  let comment := commentOf? "" (Fields.value (fieldsOf schema) "description")
  if isInterface schema then .interface name comment text else .alias name comment text

omit hP hindent hstrict in
theorem renderRoot_eq (options : Options) (schema : Json) (name : String) :
    renderRoot options schema name = rootText options schema name >>= fun text =>
      pure (rootDeclaration schema name text) := by
  unfold renderRoot rootText rootDeclaration
  split
  · rfl
  · rw [bind_assoc]
    rfl

omit hP hindent hstrict in
/-- An interface reports what its members report, and nothing besides. -/
theorem reported_interface {fields : Fields} (h : isInterface (.obj fields) = true) (levels : Nat) :
    reported (levels + 1) (.obj fields) =
      (partsUnder fields (.str "object")).flatMap (reported levels) := by
  have hplain := plainObject_of_isInterface h
  have hmembers : reportedMembers (reported levels) fields = [] := by
    rw [reportedMembers, List.flatMap_eq_nil_iff]
    intro c hc
    rw [hplain.memberless c hc]
    rfl
  have hknown : unknownIn (.str "object") = [] := rfl
  simp only [reported, reportedNode, hplain.undecided, Bool.false_eq_true, if_false, hmembers,
    reportedStructure, hplain.structured, hplain.names, if_true, List.flatMap_singleton, hknown,
    List.append_nil]

theorem holds_rootText {schema : Json} (h : Throughout (Node J D P) schema) (hint hint' : String) :
    J.Holds (reported schema.depth schema) P (rootText options schema hint)
      (rootText options schema hint') := by
  unfold rootText
  by_cases hinterface : isInterface schema = true
  · cases schema with
    | obj fields =>
      rw [if_pos hinterface, if_pos hinterface, Json.depth, reported_interface hinterface]
      exact holds_renderObject J hP
        (fun x hx => holds_render J hP hindent hstrict _ (h.part hx)) hindent hstrict h 0
    | _ => cases hinterface
  · rw [if_neg hinterface, if_neg hinterface]
    exact J.map (holds_render J hP hindent hstrict _ h 0 hint hint') fun _ htype => htype
end

end SchemaDecl.TypeScript
