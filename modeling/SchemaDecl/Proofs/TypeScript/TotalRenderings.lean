import SchemaDecl.Proofs.TypeScript.AtomicReferences
import SchemaDecl.Proofs.TypeScript.FittingTypes

/-! Renderings that cannot fail. Every keyword of a node is looked at for what it may
hold, and whatever else it holds counts for nothing. The one exception is a type an
author wrote, which is carried along as it is. If all of them are texts, then every
type is a text, texts can be joined and enclosed without fault, and from every state
the rendering of a schema ends well, however malformed the schema is. -/

namespace SchemaDecl.TypeScript

variable {α β : Type}

/-! Computations that end well. -/

namespace RenderM

variable {P : α → Prop} {Q : β → Prop}

/-- From every state the computation ends well, and its result has the property. -/
def Succeeds (P : α → Prop) (x : RenderM α) : Prop :=
  ∀ s, ∃ a s', x.from s = (.ok a, s') ∧ P a

theorem succeeds_pure {a : α} (h : P a) : Succeeds P (pure a : RenderM α) :=
  fun s => ⟨a, s, rfl, h⟩

theorem succeeds_lift {x : Except TypeFault α} {a : α} (hx : x = .ok a) (h : P a) :
    Succeeds P (liftM x : RenderM α) := fun s => ⟨a, s, by rw [from_lift, hx], h⟩

theorem succeeds_bind {x : RenderM α} {f : α → RenderM β} (hx : Succeeds P x)
    (hf : ∀ a, P a → Succeeds Q (f a)) : Succeeds Q (x >>= f) := by
  intro s
  obtain ⟨a, s', hrun, ha⟩ := hx s
  obtain ⟨b, s'', hrest, hb⟩ := hf a ha s'
  refine ⟨b, s'', ?_, hb⟩
  rw [from_bind, hrun]
  exact hrest

theorem succeeds_mapM {xs : List α} {f : α → RenderM β} (h : ∀ x ∈ xs, Succeeds Q (f x)) :
    Succeeds (fun ys => ∀ y ∈ ys, Q y) (xs.mapM f) := by
  induction xs with
  | nil =>
    rw [List.mapM_nil]
    exact succeeds_pure (by simp)
  | cons x xs ih =>
    rw [List.mapM_cons]
    refine succeeds_bind (h x List.mem_cons_self) fun y hy => ?_
    refine succeeds_bind (ih fun z hz => h z (List.mem_cons_of_mem _ hz)) fun ys hys => ?_
    exact succeeds_pure (List.forall_mem_cons.2 ⟨hy, hys⟩)

end RenderM

open RenderM

/-! Types that are texts. -/

def IsText (type : TypeText) : Prop := ∃ text, type = .text text

theorem isText_text (text : String) : IsText (.text text) := ⟨text, rfl⟩

theorem exists_texts {types : List TypeText} (h : ∀ t ∈ types, IsText t) :
    ∃ texts : List String, types = texts.map .text := by
  induction types with
  | nil => exact ⟨[], rfl⟩
  | cons type types ih =>
    obtain ⟨⟨text, rfl⟩, hrest⟩ := List.forall_mem_cons.1 h
    obtain ⟨texts, rfl⟩ := ih hrest
    exact ⟨text :: texts, rfl⟩

section
variable {types : List TypeText} (h : ∀ t ∈ types, IsText t)
include h

theorem succeeds_join (separator : String) :
    Succeeds IsText (liftM (TypeText.join separator types)) := by
  obtain ⟨texts, rfl⟩ := exists_texts h
  exact succeeds_lift (TypeText.join_of_distinct separator (TypeText.distinct_strings texts))
    (isText_text _)

theorem succeeds_tuple : Succeeds (fun _ => True) (liftM (TypeText.tuple types)) := by
  obtain ⟨texts, rfl⟩ := exists_texts h
  have hread : (texts.map TypeText.text).mapM TypeText.text? = .ok (texts.map id) := by
    rw [List.mapM_map]
    exact Formed.mapM_texts fun text _ => rfl
  rw [TypeText.tuple, hread]
  exact succeeds_lift rfl trivial
end

/-! Nodes with texts for types. -/

/-- A type that an author gave the node is a text. -/
def TextType (fields : Fields) : Prop :=
  ∀ value, Fields.get? fields "tsType" = some value → ∃ text, value = .str text

theorem TextType.noListType {fields : Fields} (h : TextType fields) : NoListType fields := by
  intro entries hentries
  obtain ⟨text, htext⟩ := h _ (Fields.get?_of_value hentries (by simp))
  cases htext

section
variable {options : Options} {renderer : Renderer} {fields : Fields}
  (hparts : ∀ x, Part fields x → ∀ depth hint, Succeeds IsText (renderer x depth hint))
  (depth : Nat) (hint : String)

theorem succeeds_declareEnum (names values : List Json) :
    Succeeds (fun _ => True) (declareEnum hint names values) := fun _ => ⟨_, _, rfl, trivial⟩

theorem succeeds_renderEnum : Succeeds IsText (renderEnum fields hint) := by
  rw [renderEnum_eq]
  split
  · exact succeeds_pure (isText_text _)
  · split
    · exact succeeds_bind (succeeds_declareEnum hint _ _) fun name _ =>
        succeeds_pure (isText_text name)
    · refine succeeds_join (fun t ht => ?_) _
      obtain ⟨value, _, rfl⟩ := List.mem_map.1 ht
      exact isText_text _

theorem succeeds_primitiveType (name : Json) : Succeeds IsText (primitiveType name) := by
  unfold primitiveType
  split
  · exact succeeds_pure (isText_text _)
  · exact succeeds_bind (P := fun _ => True) (fun _ => ⟨_, _, rfl, trivial⟩) fun _ _ =>
      succeeds_pure (isText_text _)

section
include hparts

theorem succeeds_renderArray :
    Succeeds (fun _ => True) (renderArray renderer fields depth hint) := by
  unfold renderArray
  cases hitems : Fields.value fields "items" with
  | arr items =>
    have hentries : ∀ x ∈ items, Part fields x := by
      intro x hx
      refine .entry ?_
      rw [entriesUnder, hitems]
      exact hx
    cases items with
    | nil => exact succeeds_pure trivial
    | cons item items =>
      exact succeeds_bind (succeeds_mapM fun x hx => hparts x (hentries x hx) depth hint)
        fun types htypes => succeeds_tuple htypes
  | obj item =>
    refine succeeds_bind (hparts _ (.item hitems) depth hint) ?_
    rintro _ ⟨text, rfl⟩
    exact succeeds_lift rfl trivial
  | _ => exact succeeds_pure trivial

theorem succeeds_renderProperty {property : Key × Json} (h : property ∈ propertiesOf fields) :
    Succeeds (fun _ => True) (renderProperty options renderer fields depth property) :=
  succeeds_bind (hparts _ (.property h) _ _) fun _ _ => succeeds_pure trivial

theorem succeeds_additionalType :
    Succeeds IsText (additionalType renderer depth (additionalOf fields)) := by
  cases hvalue : additionalOf fields with
  | obj inner => exact hparts _ (.additional (value_of_additionalOf hvalue)) _ _
  | _ => exact succeeds_pure (isText_text _)

theorem succeeds_renderIndexSignature :
    Succeeds (fun _ => True) (renderIndexSignature options renderer fields depth) := by
  rw [renderIndexSignature_eq]
  split
  · exact succeeds_pure trivial
  · refine succeeds_bind (succeeds_additionalType hparts depth) ?_
    rintro _ ⟨text, rfl⟩
    rw [signatureType_eq]
    refine succeeds_bind (P := IsText) ?_ fun type _ => succeeds_pure trivial
    unfold openType
    split
    · exact succeeds_lift rfl (isText_text _)
    · exact succeeds_lift rfl (isText_text _)

theorem succeeds_renderObject :
    Succeeds (fun _ => True) (renderObject options renderer fields depth) :=
  succeeds_bind (succeeds_mapM fun _ hp => succeeds_renderProperty hparts depth hp) fun _ _ =>
    succeeds_bind (succeeds_renderIndexSignature hparts depth) fun _ _ => succeeds_pure trivial

theorem succeeds_renderTypeName (name : Json) :
    Succeeds IsText (renderTypeName options renderer fields depth hint name) := by
  by_cases hobject : name = .str "object"
  · rw [hobject, renderTypeName_object]
    exact succeeds_bind (succeeds_renderObject hparts depth) fun text _ =>
      succeeds_pure (isText_text text)
  · by_cases harray : name = .str "array"
    · rw [harray, renderTypeName_array]
      exact succeeds_bind (succeeds_renderArray hparts depth hint) fun text _ =>
        succeeds_pure (isText_text text)
    · rw [renderTypeName_other _ _ _ _ _ hobject harray]
      exact succeeds_primitiveType name

/-- With texts for types the node stays the same for all the names in its `type`. -/
theorem succeeds_renderNames (htext : Throughout TextType (.obj fields)) (names : List Json) :
    Succeeds (fun types => ∀ t ∈ types, IsText t)
      (renderNames options renderer depth hint fields names) := by
  have hname : ∀ name, Succeeds IsText
      (renderTypeName options renderer fields depth hint name) :=
    succeeds_renderTypeName hparts depth hint
  have hstill := afterName_of_noListType options (htext.imp fun _ => TextType.noListType)
  induction names with
  | nil => exact succeeds_pure (by simp)
  | cons name names ih =>
    cases names with
    | nil => exact succeeds_bind (hname name) fun type htype => succeeds_pure (by simpa using htype)
    | cons next names =>
      simp only [renderNames, hstill]
      refine succeeds_bind (hname name) fun type htype => succeeds_bind ih fun types htypes => ?_
      exact succeeds_pure (List.forall_mem_cons.2 ⟨htype, htypes⟩)

theorem succeeds_ownType (htext : Throughout TextType (.obj fields)) :
    Succeeds (fun types => ∀ t ∈ types, IsText t)
      (ownType options renderer fields depth hint) := by
  unfold ownType
  split
  · exact succeeds_bind (succeeds_bind (succeeds_renderNames hparts depth hint htext _)
      fun types htypes => succeeds_join htypes " | ") fun type htype =>
        succeeds_pure (by simpa using htype)
  · exact succeeds_pure (by simp)

theorem succeeds_renderCombinator {c : Key × String} (hc : c ∈ combinatorJoins) :
    Succeeds (fun types => ∀ t ∈ types, IsText t)
      (renderCombinator renderer fields depth hint c) := by
  rw [renderCombinator_eq]
  split
  · exact succeeds_pure (by simp)
  · exact succeeds_bind (succeeds_mapM fun x hx => hparts x (.member hc hx) depth hint)
      fun types htypes => succeeds_bind (succeeds_join htypes c.2) fun type htype =>
        succeeds_pure (by simpa using htype)

theorem succeeds_renderParts (htext : Throughout TextType (.obj fields)) :
    Succeeds IsText (renderParts options renderer fields depth hint) := by
  rw [renderParts_eq]
  refine succeeds_bind (succeeds_ownType hparts depth hint htext) fun own hown => ?_
  refine succeeds_bind (succeeds_mapM fun c hc => succeeds_renderCombinator hparts depth hint hc)
    fun joined hjoined => succeeds_join (fun t ht => ?_) " & "
  rcases List.mem_append.1 ht with ht | ht
  · exact hown t ht
  · obtain ⟨types, htypes, ht⟩ := List.mem_flatten.1 ht
    exact hjoined types htypes t ht

theorem succeeds_renderFields (htext : Throughout TextType (.obj fields)) :
    Succeeds IsText (renderFields options renderer fields depth hint) := by
  unfold renderFields
  cases htype : Fields.get? fields "tsType" with
  | some value =>
    obtain ⟨text, rfl⟩ := htext.root value htype
    exact succeeds_pure (isText_text text)
  | none =>
    dsimp only
    split
    · exact succeeds_pure (isText_text _)
    · split
      · exact succeeds_pure (isText_text _)
      · split
        · exact succeeds_renderEnum hint
        · exact succeeds_renderParts hparts depth hint htext
end
end

/-! Whole schemas. -/

/-- By induction on the levels: the parts of a node are rendered with one level less. -/
theorem succeeds_render (options : Options) (levels : Nat) {schema : Json}
    (h : Throughout TextType schema) (depth : Nat) (hint : String) :
    Succeeds IsText (render options levels schema depth hint) := by
  induction levels generalizing schema depth hint with
  | zero => exact succeeds_pure (isText_text _)
  | succ levels ih =>
    cases schema with
    | obj fields => exact succeeds_renderFields (fun x hx => ih (h.part hx)) depth hint h
    | _ => exact succeeds_pure (isText_text _)

theorem succeeds_renderRoot (options : Options) {schema : Json} (h : Throughout TextType schema)
    (name : String) : Succeeds (fun _ => True) (renderRoot options schema name) := by
  unfold renderRoot
  dsimp only
  split
  · cases schema with
    | obj fields =>
      exact succeeds_bind (succeeds_renderObject
        (fun x hx => succeeds_render options _ (h.part hx)) 0) fun _ _ => succeeds_pure trivial
    | _ => contradiction
  · exact succeeds_bind (succeeds_render options _ h 0 name) fun _ _ => succeeds_pure trivial

/-- A compiler whose formatter does not fail compiles every schema in which the types that authors
gave are texts. -/
theorem Compiler.compile_succeeds (c : Compiler) {schema : Json}
    (htext : Throughout TextType schema)
    (hformat : ∀ code options, ∃ formatted, c.formatter code options = .ok formatted)
    (name : String) (options : Options) :
    ∃ code, (c.compile schema name options).1.result = .ok code := by
  obtain ⟨root, state, hrun, _⟩ :=
    succeeds_renderRoot options htext (Name.toIdentifier name) (c.startState name)
  have hrendered : c.rendered schema name options = (.ok root, state) := hrun
  have hformatted : ∃ formatted, c.formatted options
      ((sourceFile options root state).text options) = .ok formatted := by
    unfold formatted
    split
    · exact hformat _ _
    · exact ⟨_, rfl⟩
  obtain ⟨⟨code, events⟩, hcode⟩ := hformatted
  refine ⟨code, ?_⟩
  rw [compile, hrendered]
  simp only [finished, hcode]

/-- Names that are no names, an item that is no schema, and keywords that hold what they should
not. -/
def malformed : Json :=
  .obj [("type", .arr [.obj [], .str "array"]), ("required", .obj []), ("oneOf", .obj []),
    ("items", .arr [.int 3, .obj [("tsType", .str "Date")]])]

/-- All of it is passed over, and the type of an author stands where it was given. -/
theorem Compiler.compile_succeeds_malformed : Throughout TextType malformed ∧
    (∃ code, ((new Formatter.absent ["T"]).compile malformed "T" .plain).1.result = .ok code) ∧
    ((new Formatter.absent ["T"]).compile malformed "T" .plain).1.result =
      .ok "export type T = unknown | [unknown, Date];\n" := by
  have htext : Throughout TextType malformed := by
    refine throughout_of_parts (fun value hvalue => by cases hvalue) fun x hx => ?_
    have hparts : x ∈ [.int 3, .obj [("tsType", .str "Date")]] := hx
    simp only [List.mem_cons, List.not_mem_nil, or_false] at hparts
    rcases hparts with rfl | rfl
    · rintro fields ⟨⟩
    · exact throughout_of_parts (fun value hvalue => ⟨"Date", (Option.some.inj hvalue).symm⟩)
        fun x hx => by cases hx
  refine ⟨htext, ?_, by decide +kernel⟩
  exact compile_succeeds _ htext (fun _ _ => ⟨_, rfl⟩) _ _

end SchemaDecl.TypeScript
