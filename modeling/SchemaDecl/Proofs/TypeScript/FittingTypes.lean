import SchemaDecl.Proofs.TypeScript.EnumNames
import SchemaDecl.Proofs.TypeScript.GrownLayouts

/-! Types that fit a layout. They are put together from the leaves of the layout as it
says, where an enum is called by the name it is declared under; in an object literal
each member stands with its comment, its name, its mark and its type, and the index
signature stands behind them. What the renderer returns fits the layout of the schema,
and so does the code that is compiled from it. -/

namespace SchemaDecl.TypeScript

open Schema (Address)

def Member.lines (options : Options) (depth : Nat) (member : Member) (type : TypeText) :
    List String :=
  let indent := indentation options (depth + 1)
  (commentOf? indent member.description).toList ++
    [indent ++ memberName member.key.display ++ (if member.optional then "?" else "") ++ ": " ++
      type.display ++ ";"]

def literalLines (options : Options) (depth : Nat) (members : List (Member × Layout))
    (types : List TypeText) : List String :=
  (List.zipWith (fun member type => member.1.lines options depth type) members types).flatten

/-- The type an index signature has for the type of what it stands for. -/
def openType (options : Options) (type : TypeText) : Except TypeFault TypeText :=
  if options.strictIndexSignatures then type.orUndefined else .ok type

def signatureLine (options : Options) (depth : Nat) (type : TypeText) : String :=
  indentation options (depth + 1) ++ "[k: string]: " ++ type.display ++ ";"

/-- The type is one for the layout, over the enums that were declared on the way. -/
inductive Fits (options : Options) (enums : List EnumDeclaration) : Layout → TypeText → Prop
  | written {type : TypeText} : Fits options enums (.leaf (.written type)) type
  | declared {name : String} {members : List (String × String)} : ⟨name, members⟩ ∈ enums →
      Fits options enums (.leaf (.declared members)) (.text name)
  | listed {entries : List Json} : Fits options enums (.leaf .listed) (.verbatim (.arr entries))
  | array {item : Layout} {type : TypeText} {text : String} : Fits options enums item type →
      type.arrayOf = .ok text → Fits options enums (.array item) (.text text)
  | tuple {items : List Layout} {types : List TypeText} {text : String} :
      List.Forall₂ (Fits options enums) items types → TypeText.tuple types = .ok text →
        Fits options enums (.tuple items) (.text text)
  | joined {separator : String} {parts : List Layout} {types : List TypeText} {type : TypeText} :
      List.Forall₂ (Fits options enums) parts types → TypeText.join separator types = .ok type →
        Fits options enums (.joined separator parts) type
  | closed {place : Option Address} {depth : Nat} {members : List (Member × Layout)}
      {types : List TypeText} :
      List.Forall₂ (fun member type => Fits options enums member.2 type) members types →
        Fits options enums (.object place depth members none)
          (.text (objectText options depth (literalLines options depth members types)))
  | opened {place : Option Address} {depth : Nat} {members : List (Member × Layout)}
      {types : List TypeText} {inner : Layout} {type open' : TypeText} :
      List.Forall₂ (fun member type => Fits options enums member.2 type) members types →
        Fits options enums inner type → openType options type = .ok open' →
          Fits options enums (.object place depth members (some inner))
            (.text (objectText options depth
              (literalLines options depth members types ++ [signatureLine options depth open'])))

theorem Fits.loosened {options : Options} {enums : List EnumDeclaration} {l : Layout}
    {type : TypeText} (h : Fits options enums l type) : Fits options enums l.loosened type := by
  unfold Layout.loosened
  split
  · cases h
    exact .listed
  · exact h

/-! What a computation returns. -/

namespace RenderM

variable {α β γ : Type} {P : α → Prop} {Q : β → Prop} {enums : List EnumDeclaration}

/-- The computation keeps the enums there are, and what it returns has the property if all the
enums it leaves are among the given ones. -/
def Yields (enums : List EnumDeclaration) (P : α → Prop) (x : RenderM α) : Prop :=
  ∀ s a s', x.from s = (.ok a, s') → s.enums ⊆ s'.enums ∧ (s'.enums ⊆ enums → P a)

theorem Yields.imp {R : α → Prop} {x : RenderM α} (h : Yields enums P x) (hPR : ∀ a, P a → R a) :
    Yields enums R x := fun s a s' hrun =>
  ⟨(h s a s' hrun).1, fun hamong => hPR a ((h s a s' hrun).2 hamong)⟩

theorem yields_lift {x : Except TypeFault α} (h : ∀ a, x = .ok a → P a) :
    Yields enums P (liftM x : RenderM α) := by
  intro s a s' hrun
  rw [from_lift] at hrun
  obtain ⟨ha, rfl⟩ := Prod.mk.inj hrun
  exact ⟨List.Subset.refl _, fun _ => h a ha⟩

theorem yields_pure {a : α} (h : P a) : Yields enums P (pure a : RenderM α) :=
  yields_lift (x := .ok a) fun _ ha => Except.ok.inj ha ▸ h

/-- What comes first has its property as the enums it leaves are kept by what comes after. -/
theorem yields_bind {x : RenderM α} {f : α → RenderM β} (hx : Yields enums P x)
    (hf : ∀ a, Yields enums (fun b => P a → Q b) (f a)) : Yields enums Q (x >>= f) := by
  intro s b s'' hrun
  obtain ⟨a, s', hfirst, hrest⟩ := Inversion.run_bind_eq_ok.1 hrun
  obtain ⟨hkept, ha⟩ := hx s a s' hfirst
  obtain ⟨hkept', hb⟩ := hf a s' b s'' hrest
  exact ⟨List.Subset.trans hkept hkept', fun hamong =>
    hb hamong (ha (List.Subset.trans hkept' hamong))⟩

theorem yields_mapM {R : γ → β → Prop} {xs : List α} {f : α → RenderM β} {ls : List γ}
    (h : List.Forall₂ (fun x l => Yields enums (R l) (f x)) xs ls) :
    Yields enums (List.Forall₂ R ls) (xs.mapM f) := by
  induction h with
  | nil =>
    rw [List.mapM_nil]
    exact yields_pure .nil
  | cons hfirst _ ih =>
    rw [List.mapM_cons]
    exact yields_bind hfirst fun b => yields_bind ih fun bs =>
      yields_pure fun hbs hb => .cons hb hbs

theorem yields_declareEnum (hint : String) (names values : List Json) :
    Yields enums (fun name => ⟨name, enumMembers names values⟩ ∈ enums)
      (declareEnum hint names values) := by
  intro s name s' hrun
  have hadds := adds_declareEnum hint names values s
  rw [declareEnum_from] at hrun
  obtain ⟨hname, rfl⟩ := Prod.mk.inj hrun
  obtain rfl := Except.ok.inj hname
  rw [hadds.enums]
  exact ⟨List.subset_append_left _ _, fun hamong => hamong (by simp)⟩

theorem yields_unknownType (name : Json) : Yields enums (fun _ => True)
    (modify fun s => { s with events := s.events ++ [.unknownType name] }) := by
  intro s u s' hrun
  obtain ⟨-, rfl⟩ := Prod.mk.inj hrun
  exact ⟨List.Subset.refl _, fun _ => trivial⟩

end RenderM

open RenderM

/-! What is rendered fits. -/

theorem signatureType_eq (options : Options) (type : TypeText) :
    signatureType options type = liftM (openType options type) := by
  unfold signatureType openType
  split <;> rfl

section
variable {options : Options} {enums : List EnumDeclaration} {renderer : Renderer}
  {below : Layouter} (place : Option Address) (fields : Fields) (depth : Nat) (hint : String)

/-! What is written without looking below a node. -/

theorem fits_renderEnum :
    Yields enums (Fits options enums (enumLayout fields)) (renderEnum fields hint) := by
  rw [renderEnum_eq, enumLayout]
  split
  · exact yields_pure .written
  split
  · exact yields_bind (yields_declareEnum hint _ _) fun name => yields_pure .declared
  · refine yields_lift fun type htype => .joined ?_ htype
    rw [List.forall₂_map_left_iff, List.forall₂_map_right_iff]
    exact List.forall₂_same.2 fun value _ => .written

theorem fits_renderFields_alone (halone : decidesAlone fields = true) :
    Yields enums (Fits options enums (aloneLayout fields))
      (renderFields options renderer fields depth hint) := by
  unfold renderFields aloneLayout
  cases htype : Fields.get? fields "tsType" with
  | some type => exact yields_pure .written
  | none =>
    dsimp only
    split
    · exact yields_pure .written
    · rename_i hany
      cases hconst : Fields.get? fields "const" with
      | some value => exact yields_pure .written
      | none =>
        have henum : Fields.contains fields "enum" = true := by
          simpa [decidesAlone, Fields.contains, htype, hconst, hany] using halone
        dsimp only
        rw [if_pos henum]
        exact fits_renderEnum fields hint

theorem fits_primitiveType (name : Json) :
    Yields enums (Fits options enums (.text (primitiveText name))) (primitiveType name) := by
  unfold primitiveType
  split
  · rename_i type hknown
    have htext : primitiveText name = type := by
      cases name with
      | str s => exact Option.getD_eq_iff.2 (.inl hknown)
      | _ => cases hknown
    rw [htext]
    exact yields_pure .written
  · rename_i hunknown
    have htext : primitiveText name = "unknown" := by
      cases name with
      | str s => exact Option.getD_eq_iff.2 (.inr ⟨hunknown, rfl⟩)
      | _ => rfl
    rw [htext]
    exact yields_bind (yields_unknownType name) fun _ => yields_pure fun _ => .written

/-! What is put together from the types below a node. -/

section
variable (hbelow : ∀ place x depth hint,
  Yields enums (Fits options enums (below place x depth)) (renderer x depth hint))
include hbelow

/-- Values that stand in a list are rendered to types that fit, one by one. -/
theorem fits_mapM (xs : List Json) (f : Nat → Option Address) :
    Yields enums (List.Forall₂ (Fits options enums) (xs.mapIdx fun i x => below (f i) x depth))
      (xs.mapM fun x => renderer x depth hint) := by
  refine yields_mapM (List.forall₂_iff_get.2 ⟨by simp, fun i hi hi' => ?_⟩)
  rw [List.get_eq_getElem, List.get_eq_getElem, List.getElem_mapIdx]
  exact hbelow _ _ _ _

theorem fits_renderArray :
    Yields enums
      (fun text => Fits options enums (arrayLayout below place fields depth) (.text text))
      (renderArray renderer fields depth hint) := by
  unfold renderArray arrayLayout
  cases Fields.value fields "items" with
  | arr items =>
    cases items with
    | nil => exact yields_pure .written
    | cons item items =>
      exact yields_bind (fits_mapM depth hint hbelow (item :: items) _) fun types =>
        yields_lift fun text htext htypes => .tuple htypes htext
  | obj item =>
    exact yields_bind (hbelow _ _ _ _) fun type => yields_lift fun text htext htype =>
      .array htype htext
  | _ => exact yields_pure .written

theorem fits_renderProperty (property : Key × Json) :
    Yields enums (fun lines => ∃ type,
        Fits options enums (memberLayout below place fields depth property).2 type ∧
        lines = (memberLayout below place fields depth property).1.lines options depth type)
      (renderProperty options renderer fields depth property) := by
  obtain ⟨key, x⟩ := property
  refine yields_bind (hbelow _ _ _ _) fun type => yields_pure fun htype => ⟨type, htype, ?_⟩
  refine congrArg₂ (· ++ ·) (congrArg Option.toList ?_) ?_
  · cases x <;> rfl
  · rw [memberLayout]
    cases isRequired fields key <;> rfl

omit hbelow in
theorem exists_types_of_lines {members : List (Member × Layout)} {lines : List (List String)}
    (h : List.Forall₂ (fun member lines => ∃ type, Fits options enums member.2 type ∧
      lines = member.1.lines options depth type) members lines) :
    ∃ types,
      List.Forall₂ (fun member type => Fits options enums member.2 type) members types ∧
        lines.flatten = literalLines options depth members types := by
  induction h with
  | nil => exact ⟨[], .nil, rfl⟩
  | cons hfirst _ ih =>
    obtain ⟨type, htype, rfl⟩ := hfirst
    obtain ⟨types, htypes, hlines⟩ := ih
    exact ⟨type :: types, .cons htype htypes, congrArg (_ ++ ·) hlines⟩

/-- The type behind an index signature that is there. -/
theorem fits_additionalType (hopen : additionalOf fields ≠ .bool false) :
    ∃ inner, signatureLayout below fields depth = some inner ∧
      Yields enums (Fits options enums inner)
        (additionalType renderer depth (additionalOf fields)) := by
  unfold signatureLayout
  cases hv : additionalOf fields with
  | obj inner =>
    exact ⟨_, rfl, (hbelow none (.obj inner) (depth + 1) "Enum").imp fun _ => .loosened⟩
  | bool b =>
    cases b with
    | false => exact absurd hv hopen
    | true => exact ⟨_, rfl, yields_pure .written⟩
  | _ => exact ⟨_, rfl, yields_pure .written⟩

/-- The index signature, behind whatever members there are. -/
theorem fits_renderIndexSignature :
    Yields enums (fun lines => ∀ members types,
        List.Forall₂ (fun member type => Fits options enums member.2 type) members types →
          Fits options enums (.object place depth members (signatureLayout below fields depth))
            (.text (objectText options depth (literalLines options depth members types ++ lines))))
      (renderIndexSignature options renderer fields depth) := by
  rw [renderIndexSignature_eq]
  split
  · rename_i hclosed
    refine yields_pure fun members types htypes => ?_
    rw [signatureLayout, hclosed, List.append_nil]
    exact .closed htypes
  · rename_i hopen
    obtain ⟨inner, hinner, hadditional⟩ := fits_additionalType fields depth hbelow hopen
    refine yields_bind hadditional fun type => ?_
    rw [signatureType_eq, hinner]
    exact yields_bind (yields_lift fun _ h => h) fun open' =>
      yields_pure fun hopen' htype members types htypes => .opened htypes htype hopen'

theorem fits_renderObject :
    Yields enums
      (fun text => Fits options enums (objectLayout below place fields depth) (.text text))
      (renderObject options renderer fields depth) := by
  have hmembers : Yields enums (List.Forall₂ (fun member lines =>
        ∃ type, Fits options enums member.2 type ∧ lines = member.1.lines options depth type)
        ((propertiesOf fields).map (memberLayout below place fields depth)))
      ((propertiesOf fields).mapM (renderProperty options renderer fields depth)) := by
    refine yields_mapM (List.forall₂_map_right_iff.2 (List.forall₂_same.2 fun p _ => ?_))
    exact fits_renderProperty place fields depth hbelow p
  refine yields_bind hmembers fun lines => ?_
  refine yields_bind (fits_renderIndexSignature place fields depth hbelow) fun signature =>
    yields_pure fun hsignature hlines => ?_
  obtain ⟨types, htypes, hflatten⟩ := exists_types_of_lines depth hlines
  rw [hflatten]
  exact hsignature _ _ htypes

theorem fits_renderTypeName (name : Json) :
    Yields enums (Fits options enums (nameLayout below place fields depth name))
      (renderTypeName options renderer fields depth hint name) := by
  by_cases hobject : name = .str "object"
  · rw [hobject, renderTypeName_object, nameLayout, if_pos rfl]
    exact yields_bind (fits_renderObject place fields depth hbelow) fun _ => yields_pure id
  by_cases harray : name = .str "array"
  · rw [harray, renderTypeName_array, nameLayout, if_neg (by decide), if_pos rfl]
    exact yields_bind (fits_renderArray place fields depth hint hbelow) fun _ => yields_pure id
  · rw [nameLayout, if_neg hobject, if_neg harray, renderTypeName_other _ _ _ _ _ hobject harray]
    exact fits_primitiveType name

theorem fits_renderCombinator (combinator : Key × String) :
    Yields enums
      (List.Forall₂ (Fits options enums) (combinatorLayout below place fields depth combinator))
      (renderCombinator renderer fields depth hint combinator) := by
  rw [renderCombinator_eq, combinatorLayout]
  split
  · exact yields_pure .nil
  · exact yields_bind (fits_mapM depth hint hbelow _ _) fun types =>
      yields_bind (yields_lift fun type htype => htype) fun type =>
        yields_pure fun htype htypes => .cons (.joined htypes htype) .nil
end

variable {levels : Nat} (hlevels : ∀ place x depth hint,
  Yields enums (Fits options enums (layout levels place x depth)) (renderer x depth hint))
include hlevels

/-- One name after the other, each of them on the node as the names before it have left it. -/
theorem fits_renderNames (names : List Json) :
    Yields enums
      (List.Forall₂ (Fits options enums)
        (names.map (nameLayout (layout levels) place fields depth)))
      (renderNames options renderer depth hint fields names) := by
  have hname := fun fields => fits_renderTypeName place fields depth hint hlevels
  fun_induction renderNames options renderer depth hint fields names with
  | case1 => exact yields_pure .nil
  | case2 fields name =>
    exact yields_bind (hname fields name) fun type => yields_pure fun htype => .cons htype .nil
  | case3 fields name names _ ih =>
    rw [nameLayout_afterName] at ih
    exact yields_bind (hname fields name) fun type => yields_bind ih fun types =>
      yields_pure fun htypes htype => .cons htype htypes

theorem fits_ownType :
    Yields enums (List.Forall₂ (Fits options enums) (ownLayout (layout levels) place fields depth))
      (ownType options renderer fields depth hint) := by
  unfold ownType ownLayout
  split
  · have hnames := fits_renderNames place fields depth hint hlevels (typeNames fields)
    have hjoined := yields_bind hnames fun types =>
      yields_lift (x := TypeText.join " | " types) fun type htype htypes => Fits.joined htypes htype
    exact yields_bind hjoined fun type => yields_pure fun htype => .cons htype .nil
  · exact yields_pure .nil

theorem fits_renderFields :
    Yields enums (Fits options enums (fieldsLayout (layout levels) place fields depth))
      (renderFields options renderer fields depth hint) := by
  cases halone : decidesAlone fields with
  | true =>
    rw [fieldsLayout, if_pos halone]
    exact fits_renderFields_alone fields depth hint halone
  | false =>
    rw [fieldsLayout, halone, renderFields_eq halone, renderParts_eq]
    have hjoins : Yields enums (fun joined => List.Forall₂ (Fits options enums)
        (combinatorJoins.flatMap (combinatorLayout (layout levels) place fields depth))
        joined.flatten)
        (combinatorJoins.mapM (renderCombinator renderer fields depth hint)) := by
      refine Yields.imp (yields_mapM (List.forall₂_map_right_iff.2 (List.forall₂_same.2 fun c _ =>
        fits_renderCombinator place fields depth hint hlevels c))) fun joined hjoined => ?_
      rw [List.flatMap_def]
      exact List.rel_flatten hjoined
    exact yields_bind (fits_ownType place fields depth hint hlevels) fun own =>
      yields_bind hjoins fun joined => yields_lift fun type htype hjoined hown =>
        .joined (List.rel_append hown hjoined) htype
end

section
variable {enums : List EnumDeclaration} (options : Options)

/-- Whatever a value is rendered to fits its layout, by induction on the levels. -/
theorem fits_render (levels : Nat) (place : Option Address) (x : Json) (depth : Nat)
    (hint : String) :
    Yields enums (Fits options enums (layout levels place x depth))
      (render options levels x depth hint) := by
  induction levels generalizing place x depth hint with
  | zero => exact yields_pure .written
  | succ levels ih =>
    cases x with
    | obj fields => exact fits_renderFields place fields depth hint ih
    | _ => exact yields_pure .written

theorem fits_rootText (schema : Json) (hint : String) :
    Yields enums
      (fun text => ∃ type, Fits options enums (rootLayout schema) type ∧ text = type.display)
      (rootText options schema hint) := by
  unfold rootText rootLayout
  split
  · exact (fits_renderObject (some []) (fieldsOf schema) 0
      (fits_render options (schema.depth - 1))).imp fun text htext => ⟨.text text, htext, rfl⟩
  · exact yields_bind (fits_render options schema.depth (some []) schema 0 hint) fun type =>
      yields_pure fun htype => ⟨type, htype, rfl⟩
end

/-! Runs of a compiler. -/

section
variable {c : Compiler} {schema : Json} {name : String} {options : Options} {code : String}

/-- The code of a run is the formatted text of a source file with the root it has rendered. -/
theorem exists_rendered_of_compile (h : (c.compile schema name options).1.result = .ok code) :
    ∃ root state events, c.rendered schema name options = (.ok root, state) ∧
      c.formatted options ((Compiler.sourceFile options root state).text options) =
        .ok (code, events) := by
  rw [Compiler.result_compile] at h
  split at h
  · cases h
  · rename_i root state hrendered
    obtain ⟨⟨_, events⟩, hformatted, rfl⟩ :=
      Inversion.map_eq_ok.1 (Inversion.mapError_eq_ok.1 h)
    exact ⟨root, state, events, hrendered, hformatted⟩

/-- The root that is rendered has a type that fits the layout of the schema, over the enums of the
run. -/
theorem exists_fitting_of_rendered {root : RootDeclaration} {state : RenderState}
    (h : c.rendered schema name options = (.ok root, state)) :
    ∃ type, Fits options state.enums (rootLayout schema) type ∧
      root = rootDeclaration schema (Name.toIdentifier name) type.display := by
  rw [Compiler.rendered, renderRoot_eq] at h
  obtain ⟨text, _, htext, hroot⟩ := Inversion.run_bind_eq_ok.1 h
  obtain ⟨rfl, rfl⟩ := Inversion.run_pure_eq_ok.1 hroot
  obtain ⟨type, hfits, rfl⟩ :=
    (fits_rootText options schema _ _ _ _ htext).2 (List.Subset.refl _)
  exact ⟨type, hfits, rfl⟩
end

end SchemaDecl.TypeScript
