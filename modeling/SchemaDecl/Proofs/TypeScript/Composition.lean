import SchemaDecl.Proofs.TypeScript.CommentScan
import SchemaDecl.Proofs.TypeScript.EnumNames
import SchemaDecl.Proofs.TypeScript.Formation
import SchemaDecl.Proofs.TypeScript.GrowthLaws

/-! Rendered types and formed types. The compiler decides about parentheses by
scanning the text of a type, and the text of an object holds the descriptions of
its properties. If every description is passed over inside of brackets, the scan
is right about every type, and what is rendered is what is formed. If one is
not, then it makes the scan wrong about some schema that has it. -/

namespace SchemaDecl.TypeScript

open RenderM Scan

/-- A node whose type was not written by an author, with properties described as told. -/
structure Unwritten (D : String → Prop) (fields : Fields) : Prop where
  type : Derived fields
  described : ∀ p ∈ propertiesOf fields, ∀ node text, p.2 = .obj node →
    Fields.value node "description" = .str text → D text

/-- The rendered type is the text of the formed one, and the scan is right about it. -/
def Agrees (type : TypeText) (f : Formed) : Prop := type = .text f.text ∧ f.WellFormed

theorem agrees_single {text : String} (h : Passed 0 text.toList) :
    Agrees (.text text) (.single text) := ⟨rfl, Formed.wellFormed_single h⟩

theorem texts_of_agrees {types : List TypeText} {fs : List Formed}
    (h : List.Forall₂ Agrees types fs) :
    types = fs.map (fun f => .text f.text) ∧ ∀ f ∈ fs, f.WellFormed := by
  induction h with
  | nil => simp
  | cons hhead _ ih =>
    refine ⟨by rw [List.map_cons, hhead.1, ih.1], fun f hf => ?_⟩
    rcases List.mem_cons.1 hf with rfl | hf
    · exact hhead.2
    · exact ih.2 f hf

theorem matches_join {separator : String} (hs : Formed.Separates separator)
    {types : List TypeText} {fs : List Formed} (h : List.Forall₂ Agrees types fs) :
    Matches Agrees (liftM (TypeText.join separator types)) (pure (.join separator fs)) := by
  obtain ⟨rfl, hfs⟩ := texts_of_agrees h
  exact matches_lift (Formed.join_texts separator hfs) ⟨rfl, Formed.wellFormed_join hs hfs⟩

theorem separates_union : Formed.Separates " | " := ⟨'|', by decide, by decide⟩

theorem separates_intersection : Formed.Separates " & " := ⟨'&', by decide, by decide⟩

theorem separates_combinator {c : Key × String} (h : c ∈ combinatorJoins) :
    Formed.Separates c.2 := by
  simp only [combinatorJoins, List.mem_cons, List.not_mem_nil, or_false] at h
  rcases h with rfl | rfl | rfl
  · exact separates_union
  · exact separates_union
  · exact separates_intersection

/-! Enums. -/

theorem matches_declareEnum (hint : String) (names values : List Json) :
    Matches Agrees (declareEnum hint names values >>= fun name => pure (.text name))
      (declareEnum hint names values >>= fun name => pure (.single name)) := by
  refine matches_bind (Q := fun a b => a = b ∧ Passed 0 a.toList) ?_ ?_
  · exact fun s => ⟨_, _, _, rfl, rfl, rfl, passed_name 0 (all_isNameChar_freshName s.taken hint)⟩
  · rintro a b ⟨rfl, hpassed⟩
    exact matches_pure (agrees_single hpassed)

theorem matches_enum (fields : Fields) (hint : String) :
    Matches Agrees (renderEnum fields hint) (formEnum fields hint) := by
  rw [renderEnum_eq, formEnum]
  split
  · exact matches_pure (agrees_single (passed_name 0 (by decide)))
  · split
    · exact matches_declareEnum _ _ _
    · refine matches_join separates_union ?_
      rw [List.forall₂_map_left_iff, List.forall₂_map_right_iff, List.forall₂_same]
      exact fun value _ => agrees_single (passed_print 0 value)

/-! The pieces of a node, over parts that agree. -/

/-- The same, for a text that is to become a type. -/
def AgreesText (text : String) (f : Formed) : Prop := text = f.text ∧ f.WellFormed

/-- One text on both sides, passed over from a depth on. -/
def SameText (low : Int) (a b : String) : Prop := a = b ∧ Passed low a.toList

/-- The same lines on both sides, passed over inside of brackets. -/
def SameLines (as bs : List String) : Prop := as = bs ∧ ∀ line ∈ as, Passed 1 line.toList

/-- One type on both sides that may stand inside of brackets. -/
def SameType (a b : TypeText) : Prop :=
  ∃ text, SameText 1 text text ∧ a = .text text ∧ b = .text text

section
variable {options : Options} (hindent : Text.isAllBlank options.indent = true)
include hindent

theorem isAllBlank_indentation (depth : Nat) :
    Text.isAllBlank (indentation options depth) = true := by
  refine List.all_eq_true.2 fun c hc => ?_
  rw [indentation, String.toList_join, List.mem_flatMap] at hc
  obtain ⟨s, hs, hc⟩ := hc
  rw [List.eq_of_mem_replicate hs] at hc
  exact List.all_eq_true.1 hindent c hc

theorem passed_indentation (low : Int) (depth : Nat) :
    Passed low (indentation options depth).toList :=
  passed_blank low (isAllBlank_indentation hindent depth)

theorem passed_objectText (depth : Nat) {members : List String}
    (h : ∀ m ∈ members, Passed 1 m.toList) :
    Passed 0 (objectText options depth members).toList := by
  have hbreak : Passed 1 "\n".toList := passed_plain 1 (by decide)
  unfold objectText
  split
  · have hempty : Passed 0 ("\x7b" ++ "" ++ "\x7d").toList := Passed.braces (passed_nil 1)
    simpa using hempty
  · have hinside : Passed 1 ("\n" ++ String.intercalate "\n" members ++ "\n" ++
        indentation options depth).toList := by
      simp only [String.toList_append]
      exact ((hbreak.append (passed_intercalate hbreak h)).append hbreak).append
        (passed_indentation hindent 1 depth)
    have hbraces : Passed 0 ("\x7b" ++ ("\n" ++ String.intercalate "\n" members ++ "\n" ++
        indentation options depth) ++ "\x7d").toList := hinside.braces
    simpa using hbraces
end

section
variable {renderer : Renderer} {former : Former} {fields : Fields}
  (hparts : ∀ x, Part fields x → ∀ depth hint,
    Matches Agrees (renderer x depth hint) (former x depth hint))
include hparts

theorem matches_texts {x : Json} (hx : Part fields x) (depth : Nat) (hint : String) :
    Matches SameType (renderer x depth hint) (former.texts x depth hint) := by
  have h : Matches SameType (renderer x depth hint >>= pure) (former.texts x depth hint) := by
    refine matches_bind (hparts x hx depth hint) ?_
    rintro type f ⟨rfl, hf⟩
    exact matches_pure ⟨f.text, ⟨rfl, hf.inside⟩, rfl, rfl⟩
  rwa [bind_pure] at h

theorem matches_array (depth : Nat) (hint : String) : Matches AgreesText
    (renderArray renderer fields depth hint) (formArray former fields depth hint) := by
  have hunknown : Matches AgreesText (pure "unknown[]") (pure (.single "unknown[]")) := by
    refine matches_pure ⟨rfl, Formed.wellFormed_single ?_⟩
    have hname : Passed 0 "unknown".toList := passed_name 0 (by decide)
    simpa using hname.append Formed.passed_suffix
  cases hitems : Fields.value fields "items" with
  | arr items =>
    have hentries : ∀ x ∈ items, Part fields x := by
      intro x hx
      refine .entry ?_
      rw [entriesUnder, hitems]
      exact hx
    have hfilled : Matches AgreesText
        (items.mapM (fun item => renderer item depth hint) >>= fun types =>
          liftM (TypeText.tuple types))
        (items.mapM (fun item => former item depth hint) >>= fun fs => pure (.tuple fs)) := by
      refine matches_bind (matches_mapM fun x hx => hparts x (hentries x hx) depth hint) ?_
      intro types fs h
      obtain ⟨rfl, hfs⟩ := texts_of_agrees h
      exact matches_lift (Formed.tuple_texts fs) ⟨rfl, Formed.wellFormed_tuple hfs⟩
    cases items with
    | nil =>
      simp only [renderArray, formArray, hitems]
      exact hunknown
    | cons item items =>
      simp only [renderArray, formArray, hitems]
      exact hfilled
  | obj item =>
    simp only [renderArray, formArray, hitems]
    refine matches_bind (hparts _ (.item hitems) depth hint) ?_
    rintro type f ⟨rfl, hf⟩
    exact matches_lift (Formed.arrayOf_text hf) ⟨rfl, Formed.wellFormed_arrayOf hf⟩
  | _ =>
    simp only [renderArray, formArray, hitems]
    exact hunknown

theorem matches_additional (depth : Nat) : Matches SameType
    (additionalType renderer depth (additionalOf fields))
    (additionalType former.texts depth (additionalOf fields)) := by
  cases hvalue : additionalOf fields with
  | obj inner => exact matches_texts hparts (.additional (value_of_additionalOf hvalue)) _ _
  | _ => exact matches_pure ⟨"unknown", ⟨rfl, passed_name 1 (by decide)⟩, rfl, rfl⟩

variable {options : Options} (hindent : Text.isAllBlank options.indent = true)
include hindent

theorem matches_indexSignature (depth : Nat) : Matches SameLines
    (renderIndexSignature options renderer fields depth)
    (renderIndexSignature options former.texts fields depth) := by
  have hsuffix : Passed 1 TypeText.undefinedSuffix.toList :=
    passed_inside (by decide)
  have hsignature : ∀ {text : String}, Passed 1 text.toList →
      Matches SameType (signatureType options (.text text))
        (signatureType options (.text text)) := by
    intro text htext
    unfold signatureType
    split
    · have happend : Passed 1 (text ++ TypeText.undefinedSuffix).toList := by
        rw [String.toList_append]
        exact htext.append hsuffix
      exact fun s => ⟨_, _, s, rfl, rfl, _, ⟨rfl, happend⟩, rfl, rfl⟩
    · exact matches_pure ⟨text, ⟨rfl, htext⟩, rfl, rfl⟩
  have hkey : Passed 1 "[k: string]: ".toList := by
    have hinside : Passed 2 "k: string".toList := passed_plain 2 (by decide)
    have hbrackets : Passed 1 ("[" ++ "k: string" ++ "]").toList := hinside.brackets
    have hcolon : Passed 1 ": ".toList := passed_plain 1 (by decide)
    simpa using hbrackets.append hcolon
  rw [renderIndexSignature_eq, renderIndexSignature_eq]
  split
  · exact matches_pure ⟨rfl, by simp⟩
  · refine matches_bind (matches_additional hparts depth) ?_
    rintro _ _ ⟨text, ⟨_, htext⟩, rfl, rfl⟩
    refine matches_bind (hsignature htext) ?_
    rintro _ _ ⟨full, ⟨_, hfull⟩, rfl, rfl⟩
    refine matches_pure ⟨rfl, fun line hline => ?_⟩
    rw [List.mem_singleton.1 hline]
    simp only [String.toList_append]
    exact (((passed_indentation hindent 1 _).append hkey).append hfull).append
      (passed_plain 1 (by decide))

variable {D : String → Prop} (hD : ∀ text, D text → Passed 1 text.toList)
  (hfields : Unwritten D fields)
include hD hfields

omit hparts in
theorem passed_commentOf {p : Key × Json} (hp : p ∈ propertiesOf fields) {node : Fields}
    (hnode : p.2 = .obj node) (depth : Nat) {comment : String}
    (h : commentOf? (indentation options depth) (Fields.value node "description") = some comment) :
    Passed 1 comment.toList := by
  cases hv : Fields.value node "description" with
  | str text =>
    rw [hv, commentOf?] at h
    have hpassed := hD text (hfields.described p hp node text hnode hv)
    intro k hk
    exact (run_comment_iff (isAllBlank_indentation hindent depth) h k).2 (hpassed k hk)
  | _ =>
    rw [hv] at h
    cases h

theorem matches_property (depth : Nat) {p : Key × Json} (hp : p ∈ propertiesOf fields) :
    Matches SameLines (renderProperty options renderer fields depth p)
      (renderProperty options former.texts fields depth p) := by
  unfold renderProperty
  dsimp only
  refine matches_bind (matches_texts hparts (.property hp) _ _) ?_
  rintro _ _ ⟨text, ⟨_, htext⟩, rfl, rfl⟩
  refine matches_pure ⟨rfl, fun line hline => ?_⟩
  rcases List.mem_append.1 hline with hcomment | hmember
  · have hsome := Option.mem_toList.1 hcomment
    split at hsome
    · rename_i node hnode
      exact passed_commentOf hindent hD hfields hp hnode (depth + 1) hsome
    · cases hsome
  · have hmark : Passed 1 (if isRequired fields p.1 then "" else "?").toList := by
      split
      · exact passed_nil 1
      · exact passed_plain 1 (by decide)
    rw [List.mem_singleton.1 hmember]
    simp only [String.toList_append]
    exact (((((passed_indentation hindent 1 _).append (passed_memberName 1 _)).append hmark).append
      (passed_plain 1 (by decide))).append htext).append (passed_plain 1 (by decide))

theorem matches_object (depth : Nat) : Matches (SameText 0)
    (renderObject options renderer fields depth)
    (renderObject options former.texts fields depth) := by
  unfold renderObject
  refine matches_bind (matches_mapM fun p hp =>
    matches_property hparts hindent hD hfields depth hp) fun members members' hmembers => ?_
  refine matches_bind (matches_indexSignature hparts hindent depth) ?_
  rintro signature _ ⟨rfl, hsignature⟩
  have hsame : members = members' ∧ ∀ lines ∈ members, ∀ line ∈ lines, Passed 1 line.toList := by
    induction hmembers with
    | nil => simp
    | cons hhead _ ih =>
      refine ⟨by rw [hhead.1, ih.1], fun lines hlines => ?_⟩
      rcases List.mem_cons.1 hlines with rfl | hlines
      · exact hhead.2
      · exact ih.2 lines hlines
  obtain ⟨rfl, hlines⟩ := hsame
  refine matches_pure ⟨rfl, passed_objectText hindent depth fun line hline => ?_⟩
  rcases List.mem_append.1 hline with hline | hline
  · obtain ⟨lines, hmem, hline⟩ := List.mem_flatten.1 hline
    exact hlines lines hmem line hline
  · exact hsignature line hline
end

/-! Whole nodes. -/

theorem passed_primitive? {name type : String} (h : primitive? name = some type) :
    Passed 0 type.toList := by
  have hwords : (["string", "number", "boolean", "null", "any"].all fun t =>
      t.toList.all Name.isNameChar) = true := by decide
  have hall : ∀ t ∈ ["string", "number", "boolean", "null", "any"], Passed 0 t.toList :=
    fun t ht => passed_name 0 (List.all_eq_true.1 hwords t ht)
  refine hall type ?_
  unfold primitive? at h
  split at h
  all_goals first
    | (cases h; done)
    | (rw [← Option.some.inj h]; simp)

theorem matches_primitive (name : Json) : Matches Agrees (primitiveType name)
    (primitiveType name >>= fun type => pure (.single type.display)) := by
  have hunknown : Formed.WellFormed (.single "unknown") :=
    Formed.wellFormed_single (passed_name 0 (by decide))
  unfold primitiveType
  split
  · rename_i type hknown
    have hpassed : Passed 0 type.toList := by
      cases name with
      | str s => exact passed_primitive? hknown
      | _ => cases hknown
    exact matches_pure (agrees_single hpassed)
  · exact fun s => ⟨_, _, _, rfl, rfl, rfl, hunknown⟩

section
variable {renderer : Renderer} {former : Former} {fields : Fields}
  (hparts : ∀ x, Part fields x → ∀ depth hint,
    Matches Agrees (renderer x depth hint) (former x depth hint))
  {options : Options} (hindent : Text.isAllBlank options.indent = true)
  {D : String → Prop} (hD : ∀ text, D text → Passed 1 text.toList)
  (hfields : Throughout (Unwritten D) (.obj fields))
include hparts

theorem matches_combinator (depth : Nat) (hint : String) {c : Key × String}
    (hc : c ∈ combinatorJoins) : Matches (List.Forall₂ Agrees)
      (renderCombinator renderer fields depth hint c)
      (formCombinator former fields depth hint c) := by
  rw [renderCombinator_eq, formCombinator]
  split
  · exact matches_pure .nil
  · refine matches_bind (matches_mapM fun x hx => hparts x (.member hc hx) depth hint) ?_
    intro types fs h
    obtain ⟨rfl, hfs⟩ := texts_of_agrees h
    have hs := separates_combinator hc
    rw [Formed.join_texts c.2 hfs]
    exact matches_pure (.cons ⟨rfl, Formed.wellFormed_join hs hfs⟩ .nil)

include hindent hD hfields

theorem matches_typeName (depth : Nat) (hint : String) (name : Json) : Matches Agrees
    (renderTypeName options renderer fields depth hint name)
    (formTypeName options former fields depth hint name) := by
  unfold formTypeName
  split
  · rename_i harray
    rw [harray, renderTypeName_array, ← bind_pure (formArray former fields depth hint)]
    refine matches_bind (matches_array hparts depth hint) ?_
    rintro text f ⟨rfl, hf⟩
    exact matches_pure ⟨rfl, hf⟩
  · rename_i harray
    by_cases hobject : name = .str "object"
    · rw [hobject, renderTypeName_object, renderTypeName_object, bind_assoc]
      refine matches_bind (matches_object hparts hindent hD hfields.root depth) ?_
      rintro text _ ⟨rfl, htext⟩
      exact matches_pure (agrees_single htext)
    · rw [renderTypeName_other options renderer fields depth hint hobject harray,
        renderTypeName_other options former.texts fields depth hint hobject harray]
      exact matches_primitive name

theorem matches_names (depth : Nat) (hint : String) (names : List Json) :
    Matches (List.Forall₂ Agrees) (renderNames options renderer depth hint fields names)
      (names.mapM (formTypeName options former fields depth hint)) := by
  have hname := matches_typeName hparts hindent hD hfields depth hint
  have hsame : ∀ name, afterName options fields name = fields :=
    afterName_of_noListType options (hfields.imp fun _ h => h.type.noListType)
  induction names with
  | nil =>
    rw [List.mapM_nil]
    exact matches_pure .nil
  | cons name names ih =>
    rw [List.mapM_cons]
    cases names with
    | nil =>
      refine matches_bind (hname name) fun type f h => ?_
      rw [List.mapM_nil, pure_bind]
      exact matches_pure (.cons h .nil)
    | cons next names =>
      rw [renderNames, hsame]
      · refine matches_bind (hname name) fun type f h => ?_
        refine matches_bind ih fun types fs hrest => ?_
        exact matches_pure (.cons h hrest)
      · simp

theorem matches_structural (depth : Nat) (hint : String) : Matches Agrees
    (renderStructural options renderer fields depth hint)
    (formStructural options former fields depth hint) :=
  matches_bind (matches_names hparts hindent hD hfields depth hint _) fun _ _ h =>
    matches_join separates_union h

theorem matches_parts (depth : Nat) (hint : String) : Matches Agrees
    (renderParts options renderer fields depth hint)
    (formParts options former fields depth hint) := by
  have hown : Matches (List.Forall₂ Agrees) (ownType options renderer fields depth hint)
      (if hasStructure fields then
        formStructural options former fields depth hint >>= fun f => pure [f]
      else pure []) := by
    unfold ownType
    split
    · refine matches_bind (matches_structural hparts hindent hD hfields depth hint) ?_
      exact fun type f h => matches_pure (.cons h .nil)
    · exact matches_pure .nil
  rw [renderParts_eq, formParts]
  refine matches_bind hown fun own own' hown => ?_
  refine matches_bind (matches_mapM fun c hc => matches_combinator hparts depth hint hc) ?_
  intro joined joined' hjoined
  exact matches_join separates_intersection (List.rel_append hown (List.rel_flatten hjoined))

theorem matches_fields (depth : Nat) (hint : String) : Matches Agrees
    (renderFields options renderer fields depth hint)
    (formFields options former fields depth hint) := by
  unfold renderFields formFields
  rcases hfields.root.type with hnone | ⟨root, keys, hroot, hsome⟩
  · rw [hnone]
    dsimp only
    split
    · exact matches_pure (agrees_single (passed_name 0 (by decide)))
    · cases Fields.get? fields "const" with
      | some value =>
        exact matches_pure (agrees_single (passed_print 0 value))
      | none =>
        dsimp only
        split
        · exact matches_enum fields hint
        · exact matches_parts hparts hindent hD hfields depth hint
  · have hname := all_isNameChar_of_isIdentifier hroot
    have hplain : root.toList.all isPlain = true := List.all_eq_true.2 fun c hc =>
      isPlain_of_isNameChar (List.all_eq_true.1 hname c hc)
    rw [hsome]
    exact matches_pure (agrees_single (passed_access 0 hplain keys))
end

/-- Every type is rendered as it is formed if the descriptions are passed over inside of
brackets. The induction is on the levels; a node needs nothing but the same for its parts. -/
theorem matches_render {D : String → Prop} (hD : ∀ text, D text → Passed 1 text.toList)
    {options : Options} (hindent : Text.isAllBlank options.indent = true) (levels : Nat)
    {schema : Json} (hschema : Throughout (Unwritten D) schema) (depth : Nat) (hint : String) :
    Matches Agrees (render options levels schema depth hint)
      (form options levels schema depth hint) := by
  have hunknown : Matches Agrees (pure (.text "unknown")) (pure (.single "unknown")) :=
    matches_pure (agrees_single (passed_name 0 (by decide)))
  induction levels generalizing schema depth hint with
  | zero => exact hunknown
  | succ levels ih =>
    cases schema with
    | obj fields =>
      exact matches_fields (fun x hx => ih (hschema.part hx)) hindent hD hschema depth hint
    | _ => exact hunknown

end SchemaDecl.TypeScript
